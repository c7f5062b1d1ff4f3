import Mathlib.Data.List.Basic
import RtosCore.ArenaCode
import RtosCore.Numerals

/-! How a handle is printed. The text names the kind of object too, so that it tells handles of
different types apart; what it does not tell is the index of a null handle. -/

namespace RtosCore

def Kind.NAME : Kind → String
  | task => "task"
  | queue => "queue"
  | timer => "timer"
  | eventGroup => "event-group"
  | streamBuffer => "stream-buffer"

def Handle.text {K : Kind} (h : Handle K) : List Char :=
  if h.isNull then K.NAME.toList ++ ":null".toList
  else K.NAME.toList ++ ':' :: numeral h.index.toNat ++ '@' :: numeral h.generation.toNat

section Text

variable {K K' : Kind}

theorem Kind.NAME_injective : Function.Injective fun K : Kind => K.NAME.toList := by
  intro K K' same
  cases K <;> cases K' <;> first | rfl | exact absurd same (by decide)

theorem Kind.colon_notMem (K : Kind) : ':' ∉ K.NAME.toList := by
  cases K <;> decide

/-- What follows the colon. -/
def Handle.fields (h : Handle K) : List Char :=
  if h.isNull then ['n', 'u', 'l', 'l']
  else numeral h.index.toNat ++ '@' :: numeral h.generation.toNat

theorem Handle.text_eq (h : Handle K) : h.text = K.NAME.toList ++ ':' :: h.fields := by
  rw [text, fields]
  split_ifs
  · rw [show ":null".toList = [':', 'n', 'u', 'l', 'l'] by decide]
  · rw [List.append_assoc]
    rfl

theorem Handle.colon_notMem_fields (h : Handle K) : ':' ∉ h.fields := by
  have digits : ∀ n, ':' ∉ numeral n := fun n mem => by
    have digit := isDigit_of_mem_numeral mem
    cases digit
  rw [fields]
  split_ifs
  · decide
  · simp [digits]

theorem null_ne_numeral (n : ℕ) (xs : List Char) : ['n', 'u', 'l', 'l'] ≠ numeral n ++ xs := by
  intro same
  obtain ⟨d, ds, digits⟩ : ∃ d ds, numeral n = d :: ds :=
    List.exists_cons_of_ne_nil Nat.toDigits_ne_nil
  have digit : d.isDigit = true := isDigit_of_mem_numeral (digits ▸ List.mem_cons_self)
  rw [digits, List.cons_append] at same
  rw [← (List.cons.inj same).1] at digit
  cases digit

theorem Handle.fields_eq_iff (h : Handle K) (h' : Handle K') : h.fields = h'.fields ↔
    if h.isNull then h'.isNull = true
    else h.index = h'.index ∧ h.generation = h'.generation := by
  cases null : h.isNull with
  | true =>
    cases null' : h'.isNull with
    | true => simp [fields, null, null']
    | false => simpa [fields, null, null'] using null_ne_numeral _ _
  | false =>
    constructor
    · intro same
      cases null' : h'.isNull with
      | true => exact absurd same.symm (by simpa [fields, null, null'] using null_ne_numeral _ _)
      | false =>
        simp only [fields, null, null', Bool.false_eq_true, if_false] at same ⊢
        obtain ⟨index, same⟩ := numeral_cancel (stops_cons rfl) (stops_cons rfl) same
        have generation := numeral_injective (List.cons.inj same).2
        exact ⟨UInt32.toNat_inj.mp index, UInt32.toNat_inj.mp generation⟩
    · rintro ⟨index, generation⟩
      have null' : h'.isNull = false := by
        rw [← null, isNull, isNull, generation]
      simp [fields, null, null', index, generation]

end Text

/-- Two handles of any types print alike exactly if they are of one kind and either both null or the
same index and generation. -/
theorem handle_text_tells {K K' : Kind} (h : Handle K) (h' : Handle K') : h.text = h'.text ↔
    K = K' ∧ if h.isNull then h'.isNull = true
      else h.index = h'.index ∧ h.generation = h'.generation := by
  rw [h.text_eq, h'.text_eq, ← Handle.fields_eq_iff,
    eq_comm, List.append_cons_inj_of_notMem K'.colon_notMem h'.colon_notMem_fields]
  constructor
  · rintro ⟨kind, -, fields⟩
    exact ⟨(Kind.NAME_injective kind).symm, fields.symm⟩
  · rintro ⟨rfl, fields⟩
    exact ⟨rfl, rfl, fields.symm⟩

end RtosCore
