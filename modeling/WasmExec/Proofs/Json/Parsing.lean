/-
The parser reads back every document.

The parser has no recursion of its own: it goes through the tokens with the brackets that
are still open. What it does with the tokens of a document is therefore stated for every
stack and whatever stands behind the document (`run_toTokens`): it goes from awaiting a
value to having this value, under the same brackets. The statement is proved by induction on
the document. Inside an array or an object a second induction, on what is still to come,
carries what the innermost bracket holds already.

Together with the scanner this says that a text is parsed as the document that it spells
(`parse?_of_spells`). The scanner asks that no two numbers stand side by side, which holds
for the tokens of a document since a comma or a bracket follows every value inside.
-/
import WasmExec.Proofs.Json.Scanning

set_option autoImplicit false

namespace WasmExec.Json

/-! ## Induction -/

/-- **Induction on a document.** The statement is at hand for every item of an array and for
the value of every member of an object. -/
@[elab_as_elim]
theorem induct {motive : Json → Prop} (null : motive .null) (bool : ∀ b, motive (.bool b))
    (number : ∀ n, motive (.number n)) (string : ∀ s, motive (.string s))
    (array : ∀ items, (∀ v ∈ items, motive v) → motive (.array items))
    (object : ∀ members, (∀ m ∈ members, motive m.2) → motive (.object members)) (j : Json) :
    motive j :=
  match j with
  | .null => null
  | .bool b => bool b
  | .number n => number n
  | .string s => string s
  | .array items => array items fun v _ => induct null bool number string array object v
  | .object members => object members fun m _ => induct null bool number string array object m.2
termination_by sizeOf j
decreasing_by
  · have hv := List.sizeOf_lt_of_mem ‹v ∈ items›
    rw [Json.array.sizeOf_spec]
    omega
  · have hm := List.sizeOf_lt_of_mem ‹m ∈ members›
    obtain ⟨key, v⟩ := m
    rw [Prod.mk.sizeOf_spec] at hm
    change sizeOf v < _
    rw [Json.object.sizeOf_spec]
    omega

/-! ## The row of a document -/

/-- **A row that may stand behind a document**: no two numbers side by side, and none in
front. -/
def Closes (tokens : List Token) : Prop :=
  Apart tokens ∧ ∀ t ∈ tokens.head?, t.isNumber = false

theorem apart_cons {t : Token} {tokens : List Token} (ht : t.isNumber = false)
    (h : Apart tokens) : Apart (t :: tokens) := by
  refine List.isChain_cons.mpr ⟨fun b _ hboth => ?_, h⟩
  rw [ht] at hboth
  exact absurd hboth.1 Bool.false_ne_true

theorem closes_cons {t : Token} {tokens : List Token} (ht : t.isNumber = false)
    (h : Apart tokens) : Closes (t :: tokens) := by
  refine ⟨apart_cons ht h, fun b hb => ?_⟩
  obtain rfl : t = b := by simpa using hb
  exact ht

/-- A row that closes a document may follow any token. -/
theorem apart_cons_of_closes {t : Token} {tokens : List Token} (h : Closes tokens) :
    Apart (t :: tokens) := by
  refine List.isChain_cons.mpr ⟨fun b hb hboth => ?_, h.1⟩
  rw [h.2 b hb] at hboth
  exact absurd hboth.2 Bool.false_ne_true

theorem closes_moreItems {items : List Json} {rest : List Token} (hrest : Closes rest)
    (hitems : ∀ v ∈ items, ∀ rest, Closes rest → Apart (v.toTokens ++ rest)) :
    Closes (moreItems items ++ rest) := by
  induction items with
  | nil =>
    rw [moreItems]
    exact closes_cons rfl hrest.1
  | cons v items ih =>
    have htail := ih fun u hu => hitems u (List.mem_cons_of_mem v hu)
    rw [moreItems, List.cons_append, List.append_assoc]
    exact closes_cons rfl (hitems v List.mem_cons_self _ htail)

theorem closes_moreMembers {members : List (Str × Json)} {rest : List Token}
    (hrest : Closes rest)
    (hmembers : ∀ m ∈ members, ∀ rest, Closes rest → Apart (m.2.toTokens ++ rest)) :
    Closes (moreMembers members ++ rest) := by
  induction members with
  | nil =>
    rw [moreMembers]
    exact closes_cons rfl hrest.1
  | cons m members ih =>
    have htail := ih fun u hu => hmembers u (List.mem_cons_of_mem m hu)
    have hvalue := hmembers m List.mem_cons_self _ htail
    rw [moreMembers, List.cons_append, List.cons_append, List.cons_append, List.append_assoc]
    exact closes_cons rfl (apart_cons rfl (apart_cons rfl hvalue))

/-- **No two numbers stand side by side** in the tokens of a document, nor at its end. -/
theorem apart_toTokens (v : Json) {rest : List Token} (hrest : Closes rest) :
    Apart (v.toTokens ++ rest) := by
  induction v using induct generalizing rest with
  | null => exact apart_cons_of_closes hrest
  | bool b => exact apart_cons_of_closes hrest
  | number n => exact apart_cons_of_closes hrest
  | string s => exact apart_cons_of_closes hrest
  | array items ih =>
    rcases items with _ | ⟨v, items⟩
    · rw [toTokens]
      exact apart_cons rfl (apart_cons rfl hrest.1)
    · -- a comma or a bracket is behind the first item, so it may end in a number
      have htail := closes_moreItems hrest fun u hu => @ih u (List.mem_cons_of_mem v hu)
      rw [toTokens, List.cons_append, List.append_assoc]
      exact apart_cons rfl (ih v List.mem_cons_self htail)
  | object members ih =>
    rcases members with _ | ⟨m, members⟩
    · rw [toTokens]
      exact apart_cons rfl (apart_cons rfl hrest.1)
    · have htail := closes_moreMembers hrest fun u hu => @ih u (List.mem_cons_of_mem m hu)
      have hvalue := ih m List.mem_cons_self htail
      rw [toTokens, List.cons_append, List.cons_append, List.cons_append, List.append_assoc]
      exact apart_cons rfl (apart_cons rfl (apart_cons rfl hvalue))

/-! ## Runs of the parser -/

/-- What the parser does with the tokens of a document, under any brackets. -/
def ReadsBack (v : Json) : Prop :=
  ∀ (stack : List Frame) (rest : List Token),
    run (.value stack) (v.toTokens ++ rest) = run (.complete v stack) rest

/-- A value begins behind an opening bracket as it does anywhere: it does not begin with a
closing one. -/
theorem run_firstItem (v : Json) (stack : List Frame) (rest : List Token) :
    run (.firstItem stack) (v.toTokens ++ rest)
      = run (.value (.items [] :: stack)) (v.toTokens ++ rest) := by
  rcases v with _ | b | n | s | (_ | ⟨v, items⟩) | (_ | ⟨m, members⟩) <;> rfl

/-- **The rest of an array.** The items that are done stand in the frame, the last first. -/
theorem run_moreItems {items : List Json} (hitems : ∀ u ∈ items, ReadsBack u) (v : Json)
    (done : List Json) (stack : List Frame) (rest : List Token) :
    run (.complete v (.items done :: stack)) (moreItems items ++ rest)
      = run (.complete (.array (done.reverse ++ v :: items)) stack) rest := by
  induction items generalizing v done with
  | nil =>
    have hdone : (v :: done).reverse = done.reverse ++ [v] := List.reverse_cons
    rw [moreItems, ← hdone]
    rfl
  | cons u items ih =>
    -- behind a comma the value is one of those that are done, and the next one is read
    have hcomma : ∀ tokens, run (.complete v (.items done :: stack)) (.comma :: tokens)
        = run (.value (.items (v :: done) :: stack)) tokens := fun _ => rfl
    rw [moreItems, List.cons_append, List.append_assoc, hcomma,
      hitems u List.mem_cons_self, ih fun w hw => hitems w (List.mem_cons_of_mem u hw),
      List.reverse_cons, List.append_assoc, List.singleton_append]

/-- **The rest of an object**, in the same way. -/
theorem run_moreMembers {members : List (Str × Json)} (hmembers : ∀ m ∈ members, ReadsBack m.2)
    (key : Str) (v : Json) (done : List (Str × Json)) (stack : List Frame) (rest : List Token) :
    run (.complete v (.member done key :: stack)) (moreMembers members ++ rest)
      = run (.complete (.object (done.reverse ++ (key, v) :: members)) stack) rest := by
  induction members generalizing key v done with
  | nil =>
    have hdone : ((key, v) :: done).reverse = done.reverse ++ [(key, v)] := List.reverse_cons
    rw [moreMembers, ← hdone]
    rfl
  | cons m members ih =>
    obtain ⟨nextKey, u⟩ := m
    have hcomma : ∀ tokens, run (.complete v (.member done key :: stack))
          (.comma :: .string nextKey :: .colon :: tokens)
        = run (.value (.member ((key, v) :: done) nextKey :: stack)) tokens := fun _ => rfl
    rw [moreMembers, List.cons_append, List.cons_append, List.cons_append, List.append_assoc,
      hcomma, hmembers _ List.mem_cons_self,
      ih fun w hw => hmembers w (List.mem_cons_of_mem _ hw),
      List.reverse_cons, List.append_assoc, List.singleton_append]

/-- **The tokens of a document are read as this document**, whatever is open around it and
whatever follows. -/
theorem run_toTokens (v : Json) : ReadsBack v := by
  induction v using induct with
  | null => exact fun _ _ => rfl
  | bool b => exact fun _ _ => rfl
  | number n => exact fun _ _ => rfl
  | string s => exact fun _ _ => rfl
  | array items ih =>
    intro stack rest
    rcases items with _ | ⟨v, items⟩
    · rfl
    · -- the first item is read in a frame that holds nothing yet
      have hopen : ∀ tokens, run (.value stack) (.openBracket :: tokens)
          = run (.firstItem stack) tokens := fun _ => rfl
      rw [toTokens, List.cons_append, List.append_assoc, hopen, run_firstItem,
        ih v List.mem_cons_self, run_moreItems fun u hu => ih u (List.mem_cons_of_mem v hu),
        List.reverse_nil, List.nil_append]
  | object members ih =>
    intro stack rest
    rcases members with _ | ⟨⟨key, v⟩, members⟩
    · rfl
    · have hopen : ∀ tokens, run (.value stack) (.openBrace :: .string key :: .colon :: tokens)
          = run (.value (.member [] key :: stack)) tokens := fun _ => rfl
      rw [toTokens, List.cons_append, List.cons_append, List.cons_append, List.append_assoc,
        hopen, ih _ List.mem_cons_self,
        run_moreMembers fun m hm => ih m (List.mem_cons_of_mem _ hm),
        List.reverse_nil, List.nil_append]

/-- **A text is parsed as the document that it spells.** -/
theorem parse?_of_spells {text : String} {j : Json} (h : Spells text j) : parse? text = some j := by
  have hapart : Apart j.toTokens := by
    have hend : Closes [] := ⟨List.isChain_nil, by simp⟩
    simpa using apart_toTokens j hend
  have hread : run (.value []) j.toTokens = some (.complete j []) := by
    have hrun := run_toTokens j [] []
    rwa [List.append_nil] at hrun
  rw [parse?, tokens_of_row h hapart, Option.bind_some, ofTokens?, hread]

end WasmExec.Json
