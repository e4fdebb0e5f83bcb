/-
Documents have texts.

A grammar of which no text spells a certain document would make it an empty statement that
every text of the document is read back. So it is shown here that there are texts: every
string has a spelling, since a character that may not stand as itself has an escape, and
every number has one, its digits. From lexemes for all tokens a row is made by putting one
behind the other, without blanks.

The argument is about tokens and not about documents, so it needs no printer. A document has
a text if each of its tokens has a lexeme (`Writable`), and this is passed on from the items
of an array to the array, and so to the records that are written as arrays.
-/
import WasmExec.Proofs.Json.Record
import WasmExec.Proofs.Json.Grammar
import WasmExec.Proofs.Text.Hexadecimal

set_option autoImplicit false

namespace WasmExec.Json

open Text (IsNumeral)

/-! ## Lexemes -/

/-- A small number has four hexadecimal digits, the first two of them zeros. -/
theorem spellsUnit_of_lt {n : Nat} (h : n < 0x100) :
    SpellsUnit ['0', '0', Nat.digitChar (n / 16), Nat.digitChar (n % 16)] n := by
  have hzero := Text.hexValue_digitChar 0 (by decide)
  have hsum : 0 * 0x1000 + 0 * 0x100 + n / 16 * 0x10 + n % 16 = n := by omega
  have hunit := SpellsUnit.mk hzero hzero (Text.hexValue_digitChar (n / 16) (by omega))
    (Text.hexValue_digitChar (n % 16) (Nat.mod_lt n (by decide)))
  rwa [hsum] at hunit

/-- **Every text is the content of a string.** A quote and a backslash have a letter, and a
control character has its number. -/
theorem exists_content (s : List Char) : ∃ cs, SpellsContent cs s := by
  induction s with
  | nil => exact ⟨[], .nil⟩
  | cons c s ih =>
    obtain ⟨cs, hcs⟩ := ih
    by_cases hquote : c = '"'
    · exact ⟨'\\' :: '"' :: cs, .letter (by simp [hquote, letterEscapes]) hcs⟩
    by_cases hslash : c = '\\'
    · exact ⟨'\\' :: '\\' :: cs, .letter (by simp [hslash, letterEscapes]) hcs⟩
    by_cases hcontrol : 0x20 ≤ c.toNat
    · exact ⟨c :: cs, .plain hquote hslash hcontrol hcs⟩
    · -- a control character is left
      have hsmall : c.toNat < 0x100 := by omega
      exact ⟨_, .unit (spellsUnit_of_lt hsmall) hcs⟩

/-- A number that is not zero does not begin with a zero. -/
theorem head?_toDigits_ne_zero {n : Nat} (hn : n ≠ 0) : (Nat.toDigits 10 n).head? ≠ some '0' := by
  induction n using Nat.strongRecOn with
  | ind n ih =>
    rw [Nat.toDigits_eq_if (by decide)]
    by_cases hsmall : n < 10
    · have hdigit : ∀ k < 10, k ≠ 0 → some (Nat.digitChar k) ≠ some '0' := by decide
      rw [if_pos hsmall, List.head?_singleton]
      exact hdigit n hsmall hn
    · -- the digits begin as those of the tenth part
      have hlt : n / 10 < n := by omega
      rw [if_neg hsmall, List.head?_append_of_ne_nil _ Nat.toDigits_ne_nil]
      exact ih (n / 10) hlt (by omega)

theorem isWhole_toString (n : Nat) : IsWhole (toString n).toList := by
  have hprinted : (toString n).toList = Nat.toDigits 10 n := Nat.toList_repr
  by_cases hzero : n = 0
  · rw [hprinted, hzero]
    exact .inl rfl
  · refine .inr ⟨?_, n, Text.isNumeral_toString n⟩
    rw [hprinted]
    exact head?_toDigits_ne_zero hzero

/-! ## Rows -/

/-- **Every row of tokens that have lexemes has a text.** -/
theorem exists_row {tokens : List Token} (h : ∀ t ∈ tokens, ∃ lexeme, SpellsToken lexeme t) :
    ∃ cs, SpellsRow cs tokens := by
  have hnone : AreBlanks [] := by simp [AreBlanks]
  induction tokens with
  | nil => exact ⟨[], .nil hnone⟩
  | cons t tokens ih =>
    obtain ⟨lexeme, hlexeme⟩ := h t List.mem_cons_self
    obtain ⟨cs, hcs⟩ := ih fun u hu => h u (List.mem_cons_of_mem t hu)
    exact ⟨_, .cons hnone hlexeme hcs⟩

/-- **A document whose tokens have lexemes.** -/
def Writable (j : Json) : Prop := ∀ t ∈ j.toTokens, ∃ lexeme, SpellsToken lexeme t

theorem exists_text {j : Json} (h : Writable j) : ∃ text, Spells text j := by
  obtain ⟨cs, hcs⟩ := exists_row h
  refine ⟨String.ofList cs, ?_⟩
  rwa [Spells, String.toList_ofList]

theorem writable_text (s : String) : Writable (.string (some s)) := by
  intro t ht
  obtain rfl : t = .string (some s) := by simpa [toTokens] using ht
  obtain ⟨cs, hcs⟩ := exists_content s.toList
  have hstring := SpellsToken.string hcs
  rw [String.ofList_toList] at hstring
  exact ⟨_, hstring⟩

theorem exists_nat (n : Nat) : ∃ j, IsNat n j ∧ Writable j := by
  refine ⟨_, isNat_toString n, fun t ht => ?_⟩
  rw [toTokens, List.mem_singleton] at ht
  rw [ht]
  exact ⟨_, .number (.mk rfl (isWhole_toString n) .absent .absent)⟩

theorem writable_moreItems {items : List Json} (h : ∀ v ∈ items, Writable v) :
    ∀ t ∈ moreItems items, ∃ lexeme, SpellsToken lexeme t := by
  induction items with
  | nil =>
    rw [moreItems, List.forall_mem_singleton]
    exact ⟨_, .closeBracket⟩
  | cons v items ih =>
    rw [moreItems, List.forall_mem_cons, List.forall_mem_append]
    exact ⟨⟨_, .comma⟩, h v List.mem_cons_self, ih fun u hu => h u (List.mem_cons_of_mem v hu)⟩

theorem writable_array {items : List Json} (h : ∀ v ∈ items, Writable v) :
    Writable (.array items) := by
  rcases items with _ | ⟨v, items⟩
  · rw [Writable, toTokens, List.forall_mem_cons, List.forall_mem_singleton]
    exact ⟨⟨_, .openBracket⟩, ⟨_, .closeBracket⟩⟩
  · have hmore := writable_moreItems fun u hu => h u (List.mem_cons_of_mem v hu)
    rw [Writable, toTokens, List.forall_mem_cons, List.forall_mem_append]
    exact ⟨⟨_, .openBracket⟩, h v List.mem_cons_self, hmore⟩

/-! ## Lists and records -/

/-- Documents for all elements of a list, one by one. -/
theorem exists_forall₂ {α : Type} {R : α → Json → Prop} {xs : List α}
    (h : ∀ x ∈ xs, ∃ v, R x v ∧ Writable v) :
    ∃ items, List.Forall₂ R xs items ∧ ∀ v ∈ items, Writable v := by
  induction xs with
  | nil => exact ⟨[], .nil, by simp⟩
  | cons x xs ih =>
    obtain ⟨v, hxv, hv⟩ := h x List.mem_cons_self
    obtain ⟨items, hxs, hitems⟩ := ih fun y hy => h y (List.mem_cons_of_mem x hy)
    exact ⟨v :: items, .cons hxv hxs, List.forall_mem_cons.mpr ⟨hv, hitems⟩⟩

namespace Field

/-- What a field holds can be written. -/
def IsWritable (f : Field) : Prop := ∃ v, f.admits v ∧ Writable v

theorem isWritable_word (name : String) (n : UInt32) : (word name n).IsWritable :=
  exists_nat n.toNat

theorem isWritable_text (name s : String) : (text name s).IsWritable :=
  ⟨.string (some s), rfl, writable_text s⟩

theorem isWritable_list {α : Type} {isItem : α → Json → Prop} (name : String) (xs : List α)
    (h : ∀ x ∈ xs, ∃ v, isItem x v ∧ Writable v) :
    (required name (IsList isItem xs)).IsWritable := by
  obtain ⟨items, hxs, hitems⟩ := exists_forall₂ h
  exact ⟨.array items, ⟨items, rfl, hxs⟩, writable_array hitems⟩

end Field

/-- **A record can be written** if its fields can: as an array. -/
theorem exists_record {fields : List Field} (h : ∀ f ∈ fields, f.IsWritable) :
    ∃ j, IsRecord fields j ∧ Writable j := by
  obtain ⟨items, hfields, hitems⟩ := exists_forall₂ h
  exact ⟨.array items, .array hfields, writable_array hitems⟩

end WasmExec.Json
