/-
The reader accepts nothing else.

That every text of a document is read back would hold of a reader that accepts too much, and
it would say little if the grammar had too few texts. Both are excluded here: whatever the
reader accepts is spelled by the grammar, so that the grammar is exactly what the reader
accepts (`spells_iff`). There is one exception. The reader takes a string that names half of
a surrogate pair as a string without content, and such a string has no spelling here.

Each part of the scanner is shown to cut a lexeme off the front of the text. A string takes
two steps, as it does in the scanner: its content is cut into pieces (`IsCut`), and pieces
that join to a text come from a spelling of it.

The parser is inverted by a function of its state (`consumed`): the tokens that lead to this
state. One step puts its token behind them, so a run puts all its tokens behind them, and the
tokens that lead to a complete document with nothing open are the tokens of this document.
-/
import WasmExec.Proofs.Json.Parsing
import WasmExec.Proofs.Text.Hexadecimal
import Mathlib.Data.List.TakeWhile

set_option autoImplicit false

namespace WasmExec.Json

open Text (IsNumeral)

/-! ## Numbers -/

theorem append_of_scanDigits {cs ds rest : List Char} (h : scanDigits cs = some (ds, rest)) :
    cs = ds ++ rest ∧ ∃ n, IsNumeral ds n := by
  rw [scanDigits] at h
  by_cases hempty : (cs.takeWhile Char.isDigit).isEmpty = true
  · simp [hempty] at h
  · simp only [hempty, Bool.false_eq_true, if_false, Option.some.injEq, Prod.mk.injEq] at h
    obtain ⟨rfl, rfl⟩ := h
    refine ⟨List.takeWhile_append_dropWhile.symm, _, by simpa using hempty, ?_, rfl⟩
    intro c hc
    exact List.mem_takeWhile_imp hc

theorem append_of_scanWhole {cs whole rest : List Char} (h : scanWhole cs = some (whole, rest)) :
    cs = whole ++ rest ∧ IsWhole whole := by
  unfold scanWhole at h
  split at h
  · exact absurd h (by simp)
  · obtain ⟨rfl, rfl⟩ := by simpa using h
    exact ⟨rfl, .inl rfl⟩
  · next c cs hzero =>
    by_cases hc : c.isDigit = true
    · rw [if_pos hc] at h
      obtain ⟨rfl, rfl⟩ := by simpa using h
      refine ⟨by simp, .inr ⟨?_, _, by simp, ?_, rfl⟩⟩
      · rw [List.head?_cons]
        intro hhead
        exact hzero (Option.some.inj hhead)
      · intro d hd
        rcases List.mem_cons.mp hd with rfl | hd
        · exact hc
        · exact List.mem_takeWhile_imp hd
    · rw [if_neg hc] at h
      exact absurd h (by simp)

theorem append_of_scanFraction {cs rest : List Char} {fraction : Option (List Char)}
    (h : scanFraction cs = some (fraction, rest)) :
    ∃ f, cs = f ++ rest ∧ SpellsFraction f fraction := by
  unfold scanFraction at h
  split at h
  · next cs =>
    obtain ⟨⟨ds, rest'⟩, hscan, heq⟩ := Option.map_eq_some_iff.mp h
    obtain ⟨rfl, rfl⟩ := by simpa using heq
    obtain ⟨rfl, n, hdigits⟩ := append_of_scanDigits hscan
    exact ⟨'.' :: ds, rfl, .digits hdigits⟩
  · obtain ⟨rfl, rfl⟩ := by simpa using h
    exact ⟨[], rfl, .absent⟩

theorem append_of_scanExponentDigits {e : Char} (he : e = 'e' ∨ e = 'E') {cs rest : List Char}
    {exponent : Option Int} (h : scanExponentDigits cs = some (exponent, rest)) :
    ∃ body, cs = body ++ rest ∧ SpellsExponent (e :: body) exponent := by
  unfold scanExponentDigits at h
  split at h
  all_goals
    obtain ⟨⟨ds, rest'⟩, hscan, heq⟩ := Option.map_eq_some_iff.mp h
    obtain ⟨rfl, rfl⟩ := by simpa using heq
    obtain ⟨rfl, n, hdigits⟩ := append_of_scanDigits hscan
    obtain rfl := hdigits.2.2
  · exact ⟨'-' :: ds, rfl, .minus he hdigits⟩
  · exact ⟨'+' :: ds, rfl, .plus he hdigits⟩
  · exact ⟨ds, rfl, .unsigned he hdigits⟩

theorem append_of_scanExponent {cs rest : List Char} {exponent : Option Int}
    (h : scanExponent cs = some (exponent, rest)) :
    ∃ e, cs = e ++ rest ∧ SpellsExponent e exponent := by
  unfold scanExponent at h
  split at h
  · obtain ⟨body, rfl, hbody⟩ := append_of_scanExponentDigits (.inl rfl) h
    exact ⟨'e' :: body, rfl, hbody⟩
  · obtain ⟨body, rfl, hbody⟩ := append_of_scanExponentDigits (.inr rfl) h
    exact ⟨'E' :: body, rfl, hbody⟩
  · obtain ⟨rfl, rfl⟩ := by simpa using h
    exact ⟨[], rfl, .absent⟩

theorem append_of_scanNumber {negative : Bool} {cs rest : List Char} {n : Number}
    (h : scanNumber negative cs = some (n, rest)) :
    ∃ body, cs = body ++ rest ∧ SpellsNumber ((if negative then ['-'] else []) ++ body) n := by
  simp only [scanNumber, Option.bind_eq_bind, Option.bind_eq_some_iff] at h
  obtain ⟨⟨whole, cs'⟩, hwhole, ⟨fraction, cs''⟩, hfraction, ⟨exponent, cs'''⟩, hexponent, hn⟩ := h
  obtain ⟨rfl, hdigits⟩ := append_of_scanWhole hwhole
  obtain ⟨f, rfl, hf⟩ := append_of_scanFraction hfraction
  obtain ⟨e, rfl, he⟩ := append_of_scanExponent hexponent
  obtain ⟨rfl, rfl⟩ := by simpa using hn
  exact ⟨whole ++ (f ++ e), by simp, .mk rfl hdigits hf he⟩

/-! ## Strings -/

theorem mem_of_escape {e c : Char} (h : escape? e = some c) : (e, c) ∈ letterEscapes := by
  unfold escape? at h
  split at h
  case h_9 => exact absurd h (by simp)
  all_goals
    obtain rfl := Option.some.inj h
    decide

theorem spells_of_unit {a b c d : Char} {piece : Piece} (h : unit? a b c d = some piece) :
    ∃ n < 0x10000, piece = .unit n ∧ SpellsUnit [a, b, c, d] n := by
  simp only [unit?, Option.bind_eq_bind, Option.bind_eq_some_iff] at h
  obtain ⟨p, hp, q, hq, r, hr, t, ht, hpiece⟩ := h
  have hlt := Text.hexValue_lt hp
  have hlt' := Text.hexValue_lt hq
  have hlt'' := Text.hexValue_lt hr
  have hlt''' := Text.hexValue_lt ht
  refine ⟨p * 0x1000 + q * 0x100 + r * 0x10 + t, by omega, ?_, .mk hp hq hr ht⟩
  have hvalue : ((p * 16 + q) * 16 + r) * 16 + t
      = p * 0x1000 + q * 0x100 + r * 0x10 + t := by ring
  rw [← hvalue]
  simpa using hpiece.symm

/-- **The content of a string in pieces.** -/
inductive IsCut : List Char → List Piece → Prop where
  | nil : IsCut [] []
  | plain {c : Char} {cs : List Char} {pieces : List Piece} :
    c ≠ '"' → c ≠ '\\' → 0x20 ≤ c.toNat → IsCut cs pieces → IsCut (c :: cs) (.char c :: pieces)
  | letter {e c : Char} {cs : List Char} {pieces : List Piece} :
    (e, c) ∈ letterEscapes → IsCut cs pieces → IsCut ('\\' :: e :: cs) (.char c :: pieces)
  | unit {digits cs : List Char} {n : Nat} {pieces : List Piece} :
    n < 0x10000 → SpellsUnit digits n → IsCut cs pieces →
      IsCut ('\\' :: 'u' :: (digits ++ cs)) (.unit n :: pieces)

/-- **A string ends at its quote**, and what stands before it is cut into the pieces. -/
theorem append_of_scanString {cs rest : List Char} {pieces : List Piece}
    (h : scanString cs = some (pieces, rest)) :
    ∃ content, cs = content ++ '"' :: rest ∧ IsCut content pieces := by
  fun_induction scanString cs generalizing pieces rest with
  | case1 => exact absurd h (by simp)
  | case2 cs =>
    obtain ⟨rfl, rfl⟩ := by simpa using h
    exact ⟨[], rfl, .nil⟩
  | case3 a b c d cs ih =>
    simp only [Option.bind_eq_bind, Option.bind_eq_some_iff] at h
    obtain ⟨piece, hunit, ⟨pieces, rest⟩, hscan, heq⟩ := h
    obtain ⟨rfl, rfl⟩ := by simpa using heq
    obtain ⟨n, hn, rfl, hdigits⟩ := spells_of_unit hunit
    obtain ⟨content, rfl, hcut⟩ := ih hscan
    exact ⟨'\\' :: 'u' :: ([a, b, c, d] ++ content), rfl, .unit hn hdigits hcut⟩
  | case4 e cs _ ih =>
    simp only [Option.bind_eq_bind, Option.bind_eq_some_iff] at h
    obtain ⟨c, hescape, ⟨pieces, rest⟩, hscan, heq⟩ := h
    obtain ⟨rfl, rfl⟩ := by simpa using heq
    obtain ⟨content, rfl, hcut⟩ := ih hscan
    exact ⟨'\\' :: e :: content, rfl, .letter (mem_of_escape hescape) hcut⟩
  | case5 => exact absurd h (by simp)
  | case6 c cs hquote _ hletter hcontrol ih =>
    simp only [Option.bind_eq_bind, Option.bind_eq_some_iff] at h
    obtain ⟨⟨pieces, rest⟩, hscan, heq⟩ := h
    obtain ⟨rfl, rfl⟩ := by simpa using heq
    -- a backslash that is no escape is the last character, and then the string has no end
    have hslash : c ≠ '\\' := by
      intro hc
      rcases cs with _ | ⟨d, cs⟩
      · exact absurd hscan (by simp [scanString])
      · exact hletter d cs hc rfl
    obtain ⟨content, rfl, hcut⟩ := ih hscan
    exact ⟨c :: content, rfl, .plain hquote hslash (by omega) hcut⟩

/-- A number that is no surrogate, in the first plane or beyond it, is the number of its
character. -/
theorem toNat_ofNat {n : Nat} (hn : n < 0x110000) (h : n < 0xd800 ∨ 0xe000 ≤ n) :
    (Char.ofNat n).toNat = n := by
  have hvalid : n.isValidChar := by
    unfold Nat.isValidChar
    omega
  rw [Char.ofNat, dif_pos hvalid]
  rfl

/-- **Pieces that join come from a spelling.** -/
theorem spells_of_isCut {cs s : List Char} {pieces : List Piece} (hcut : IsCut cs pieces)
    (hjoin : joinPieces pieces = some s) : SpellsContent cs s := by
  fun_induction joinPieces pieces generalizing cs s with
  | case1 =>
    obtain rfl := Option.some.inj hjoin
    cases hcut with
    | nil => exact .nil
  | case2 c pieces ih =>
    obtain ⟨s, hrest, rfl⟩ := Option.map_eq_some_iff.mp hjoin
    rcases hcut with _ | ⟨hquote, hslash, hcontrol, hcut⟩ | ⟨hletter, hcut⟩
    · exact .plain hquote hslash hcontrol (ih hcut hrest)
    · exact .letter hletter (ih hcut hrest)
  | case3 high low pieces hpair ih =>
    obtain ⟨s, hrest, rfl⟩ := Option.map_eq_some_iff.mp hjoin
    rcases hcut with _ | _ | _ | ⟨-, hupper, hcut⟩
    rcases hcut with _ | _ | _ | ⟨-, hlower, hcut⟩
    obtain ⟨hhigh, hhigh', hlow, hlow'⟩ := hpair
    refine .pair hupper hlower hhigh hhigh' hlow hlow' ?_ (ih hcut hrest)
    exact toNat_ofNat (by omega) (by omega)
  | case4 => exact absurd hjoin (by simp)
  | case5 high low pieces hpair hsurrogate ih =>
    obtain ⟨s, hrest, rfl⟩ := Option.map_eq_some_iff.mp hjoin
    rcases hcut with _ | _ | _ | ⟨hlt, hdigits, hcut⟩
    rw [← toNat_ofNat (n := high) (by omega) (by omega)] at hdigits
    exact .unit hdigits (ih hcut hrest)
  | case6 => exact absurd hjoin (by simp)
  | case7 n pieces _ hsurrogate ih =>
    obtain ⟨s, hrest, rfl⟩ := Option.map_eq_some_iff.mp hjoin
    rcases hcut with _ | _ | _ | ⟨hlt, hdigits, hcut⟩
    rw [← toNat_ofNat (n := n) (by omega) (by omega)] at hdigits
    exact .unit hdigits (ih hcut hrest)

/-! ## Rows -/

/-- **The token at the front of a text has a lexeme there**, unless it is a string without
content. -/
theorem append_of_scanToken {cs rest : List Char} {token : Token}
    (h : scanToken cs = some (token, rest)) (hcontent : token ≠ .string none) :
    ∃ lexeme, cs = lexeme ++ rest ∧ SpellsToken lexeme token := by
  unfold scanToken at h
  split at h
  case h_10 cs =>
    obtain ⟨⟨pieces, rest'⟩, hscan, heq⟩ := Option.map_eq_some_iff.mp h
    obtain ⟨rfl, rfl⟩ := by simpa using heq
    obtain ⟨content, rfl, hcut⟩ := append_of_scanString hscan
    rcases hjoin : joinPieces pieces with _ | s
    · rw [hjoin] at hcontent
      exact absurd rfl hcontent
    · exact ⟨'"' :: (content ++ ['"']), by simp, .string (spells_of_isCut hcut hjoin)⟩
  case h_11 cs =>
    obtain ⟨⟨n, rest'⟩, hscan, heq⟩ := Option.map_eq_some_iff.mp h
    obtain ⟨rfl, rfl⟩ := by simpa using heq
    obtain ⟨body, rfl, hnumber⟩ := append_of_scanNumber hscan
    exact ⟨'-' :: body, rfl, .number hnumber⟩
  case h_12 =>
    obtain ⟨⟨n, rest'⟩, hscan, heq⟩ := Option.map_eq_some_iff.mp h
    obtain ⟨rfl, rfl⟩ := by simpa using heq
    obtain ⟨body, rfl, hnumber⟩ := append_of_scanNumber hscan
    exact ⟨body, rfl, .number hnumber⟩
  -- the others are fixed texts
  all_goals
    obtain ⟨rfl, rfl⟩ := by simpa using h
    exact ⟨_, rfl, by constructor⟩

/-- One more blank in front of a row. -/
theorem SpellsRow.blank {c : Char} {cs : List Char} {tokens : List Token} (h : SpellsRow cs tokens)
    (hc : isBlank c = true) : SpellsRow (c :: cs) tokens := by
  have hblank : c = ' ' ∨ c = '\n' ∨ c = '\t' ∨ c = '\r' := by
    simpa [isBlank, or_assoc] using hc
  rcases h with hblanks | ⟨hblanks, hlexeme, hrest⟩
  · exact .nil (List.forall_mem_cons.mpr ⟨hblank, hblanks⟩)
  · rw [← List.cons_append]
    exact .cons (List.forall_mem_cons.mpr ⟨hblank, hblanks⟩) hlexeme hrest

/-- The tokens that the scanner adds to those it has already are those of a row. -/
theorem row_of_tokensWithin {steps : Nat} {cs : List Char} {done tokens : List Token}
    (h : tokensWithin steps cs done = some tokens) (hcontent : .string none ∉ tokens) :
    ∃ new, tokens = done.reverse ++ new ∧ SpellsRow cs new := by
  have hnone : AreBlanks [] := by simp [AreBlanks]
  fun_induction tokensWithin steps cs done with
  | case1 =>
    obtain rfl := Option.some.inj h
    exact ⟨[], (List.append_nil _).symm, .nil hnone⟩
  | case2 => exact absurd h (by simp)
  | case3 done steps c cs hblank ih =>
    obtain ⟨new, htokens, hrow⟩ := ih h
    exact ⟨new, htokens, hrow.blank hblank⟩
  | case4 done steps c cs hblank token rest hscan ih =>
    obtain ⟨new, rfl, hrow⟩ := ih h
    rw [List.reverse_cons, List.append_assoc, List.singleton_append] at hcontent ⊢
    have htoken : token ≠ .string none := by
      rintro rfl
      exact hcontent (by simp)
    obtain ⟨lexeme, htext, hlexeme⟩ := append_of_scanToken hscan htoken
    rw [htext]
    exact ⟨token :: new, rfl, .cons hnone hlexeme hrow⟩
  | case5 => exact absurd h (by simp)

/-- **The tokens of a text come from a row of lexemes.** -/
theorem row_of_tokens {cs : List Char} {tokens : List Token} (h : tokens? cs = some tokens)
    (hcontent : .string none ∉ tokens) : SpellsRow cs tokens := by
  obtain ⟨new, rfl, hrow⟩ := row_of_tokensWithin h hcontent
  exact hrow

/-- The tokens of a row have content. -/
theorem SpellsRow.content {cs : List Char} {tokens : List Token} (h : SpellsRow cs tokens) :
    .string none ∉ tokens := by
  induction h with
  | nil => exact List.not_mem_nil
  | cons _ hlexeme _ ih =>
    rw [List.mem_cons]
    rintro (rfl | hmem)
    · cases hlexeme
    · exact ih hmem

/-! ## The parser -/

/-- Items, each with a comma behind it. -/
def itemsTokens (items : List Json) : List Token :=
  items.flatMap fun v => v.toTokens ++ [.comma]

/-- Members, each with a comma behind it. -/
def membersTokens (members : List (Str × Json)) : List Token :=
  members.flatMap fun m => .string m.1 :: .colon :: (m.2.toTokens ++ [.comma])

/-- The tokens of an open bracket and what it holds so far. -/
def Frame.tokens : Frame → List Token
  | .items done => .openBracket :: itemsTokens done.reverse
  | .member done key =>
    .openBrace :: (membersTokens done.reverse ++ [.string key, .colon])

/-- The tokens of all open brackets, the outermost first. -/
def stackTokens (stack : List Frame) : List Token := stack.reverse.flatMap Frame.tokens

/-- **The tokens that lead to a state.** -/
def consumed : State → List Token
  | .value stack => stackTokens stack
  | .firstItem stack => stackTokens stack ++ [.openBracket]
  | .firstKey stack => stackTokens stack ++ [.openBrace]
  | .key done stack => stackTokens stack ++ .openBrace :: membersTokens done.reverse
  | .colon done key stack =>
    stackTokens stack ++ .openBrace :: (membersTokens done.reverse ++ [.string key])
  | .complete v stack => stackTokens stack ++ v.toTokens

theorem stackTokens_cons (f : Frame) (stack : List Frame) :
    stackTokens (f :: stack) = stackTokens stack ++ f.tokens := by
  simp [stackTokens]

theorem moreItems_append (items : List Json) (v : Json) :
    moreItems (items ++ [v]) = .comma :: (itemsTokens items ++ (v.toTokens ++ [.closeBracket])) := by
  induction items with
  | nil => rfl
  | cons u items ih => simp [moreItems, itemsTokens, ih]

/-- **An array by its last item.** -/
theorem toTokens_array (items : List Json) (v : Json) :
    (Json.array (items ++ [v])).toTokens
      = .openBracket :: (itemsTokens items ++ (v.toTokens ++ [.closeBracket])) := by
  rcases items with _ | ⟨u, items⟩
  · rfl
  · rw [List.cons_append, toTokens, moreItems_append]
    simp [itemsTokens]

theorem moreMembers_append (members : List (Str × Json)) (key : Str) (v : Json) :
    moreMembers (members ++ [(key, v)])
      = .comma :: (membersTokens members
        ++ .string key :: .colon :: (v.toTokens ++ [.closeBrace])) := by
  induction members with
  | nil => rfl
  | cons m members ih => simp [moreMembers, membersTokens, ih]

/-- **An object by its last member.** -/
theorem toTokens_object (members : List (Str × Json)) (key : Str) (v : Json) :
    (Json.object (members ++ [(key, v)])).toTokens
      = .openBrace :: (membersTokens members
        ++ .string key :: .colon :: (v.toTokens ++ [.closeBrace])) := by
  rcases members with _ | ⟨m, members⟩
  · rfl
  · rw [List.cons_append, toTokens, moreMembers_append]
    simp [membersTokens]

theorem consumed_beginValue {stack : List Frame} {s : State} {t : Token}
    (h : beginValue stack t = some s) : consumed s = stackTokens stack ++ [t] := by
  unfold beginValue at h
  split at h
  case h_7 => exact absurd h (by simp)
  all_goals
    obtain rfl := Option.some.inj h
    rfl

theorem consumed_afterValue {v : Json} {stack : List Frame} {s : State} {t : Token}
    (h : afterValue v stack t = some s) :
    consumed s = stackTokens stack ++ v.toTokens ++ [t] := by
  unfold afterValue at h
  split at h
  case h_5 => exact absurd h (by simp)
  -- a comma or a closing bracket, in an array and then in an object
  all_goals obtain rfl := Option.some.inj h
  · simp [consumed, stackTokens_cons, Frame.tokens, itemsTokens]
  · simp [consumed, stackTokens_cons, Frame.tokens, toTokens_array]
  · simp [consumed, stackTokens_cons, Frame.tokens, membersTokens]
  · simp [consumed, stackTokens_cons, Frame.tokens, toTokens_object]

/-- **One step puts its token behind those that lead to the state.** -/
theorem consumed_step {s s' : State} {t : Token} (h : step s t = some s') :
    consumed s' = consumed s ++ [t] := by
  unfold step at h
  split at h
  · exact consumed_beginValue h
  -- behind an opening bracket: its end, or a value inside a frame that is still empty
  · obtain rfl := Option.some.inj h
    simp [consumed, toTokens]
  · rw [consumed_beginValue h, stackTokens_cons]
    rfl
  -- behind an opening brace, and then at the keys and colons of its members
  · obtain rfl := Option.some.inj h
    simp [consumed, toTokens]
  · obtain rfl := Option.some.inj h
    simp [consumed, membersTokens]
  · exact absurd h (by simp)
  · obtain rfl := Option.some.inj h
    simp [consumed]
  · exact absurd h (by simp)
  · obtain rfl := Option.some.inj h
    simp [consumed, stackTokens_cons, Frame.tokens]
  · exact absurd h (by simp)
  · exact consumed_afterValue h

theorem consumed_run {s s' : State} {tokens : List Token} (h : run s tokens = some s') :
    consumed s' = consumed s ++ tokens := by
  induction tokens generalizing s with
  | nil =>
    obtain rfl := Option.some.inj h
    exact (List.append_nil _).symm
  | cons t tokens ih =>
    obtain ⟨next, hstep, hrun⟩ := Option.bind_eq_some_iff.mp h
    rw [ih hrun, consumed_step hstep, List.append_assoc, List.singleton_append]

/-- **Tokens that are read as a document are its tokens.** -/
theorem eq_toTokens_of_ofTokens {tokens : List Token} {j : Json} (h : ofTokens? tokens = some j) :
    tokens = j.toTokens := by
  unfold ofTokens? at h
  split at h
  · next v hrun =>
    obtain rfl := Option.some.inj h
    exact (consumed_run hrun).symm
  · exact absurd h (by simp)

/-- **The grammar is what the reader accepts**, strings without content apart. -/
theorem spells_iff {text : String} {j : Json} :
    Spells text j ↔ parse? text = some j ∧ .string none ∉ j.toTokens := by
  constructor
  · intro h
    exact ⟨parse?_of_spells h, h.content⟩
  · rintro ⟨hparse, hcontent⟩
    obtain ⟨tokens, htokens, hread⟩ := Option.bind_eq_some_iff.mp hparse
    obtain rfl := eq_toTokens_of_ofTokens hread
    exact row_of_tokens htokens hcontent

end WasmExec.Json
