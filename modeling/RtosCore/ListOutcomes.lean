import RtosCore.ListEffects

/-! The calls one at a time, as a program makes them: whether a call is accepted, what it then
answers, and the model of the state it leaves. -/

namespace RtosCore

variable {V : Type} [ListValue V] {g : Sizes}

namespace Call

variable {α β : Type} {m : Call V g α} {k : α → β} {s s' : ListsOf V g} {e : Exit}

omit [ListValue V] in
theorem map_apply (m : Call V g α) (k : α → β) (s : ListsOf V g) :
    (do let a ← m; return k a : Call V g β) s = ((m s).1.map k, (m s).2) := by
  change Call.bind m (fun a => Call.pure (k a)) s = _
  unfold Call.bind
  rcases m s with ⟨_ | _, _⟩ <;> rfl

omit [ListValue V] in
theorem error_of_map (h : (do let a ← m; return k a : Call V g β) s = (.error e, s')) :
    m s = (.error e, s') := by
  rw [map_apply] at h
  rcases hm : m s with ⟨e' | a, t⟩
  · rw [hm] at h
    cases h
    rfl
  · rw [hm] at h
    cases h

omit [ListValue V] in
theorem ok_of_map {b : β} (h : (do let a ← m; return k a : Call V g β) s = (.ok b, s')) :
    ∃ a, m s = (.ok a, s') ∧ k a = b := by
  rw [map_apply] at h
  rcases hm : m s with ⟨e | a, t⟩
  · rw [hm] at h
    cases h
  · rw [hm] at h
    cases h
    exact ⟨a, rfl, rfl⟩

end Call

namespace Model

variable {m : Model V} {l : ListId} {p : ItemId → Bool} {x y : ItemId} {v : V}

omit [ListValue V] in
theorem home_isSome : (m.home x).isSome = true ↔ m.Linked x := by
  rw [← not_iff_not, ← home_eq_none]
  simp

omit [ListValue V] in
theorem linked_setValue : (m.setValue x v).Linked y ↔ m.Linked y := Iff.rfl

omit [ListValue V] in
theorem home_setValue : (m.setValue x v).home y = m.home y := home_congr fun _ => Iff.rfl

omit [ListValue V] in
theorem home_place_setValue (free : ¬ m.Linked x) :
    ((m.setValue x v).place l p x).home y = if y = x then some l else m.home y := by
  rw [home_place (mt linked_setValue.mp free), home_setValue]

end Model

namespace Refines

open ListsOf

variable {s : ListsOf V g} {m : Model V} {b : Build} {op : Op V} {l : ListId} {x : ItemId}

theorem call_eq (h : Refines s m) (b : Build) (op : Op V) :
    ListsOf.call b op s = ((m.step g op).1.mapError Exit.err, (ListsOf.call b op s).2) := by
  rw [← h.call_answer b op]

theorem call_refines (h : Refines s m) (b : Build) (op : Op V) :
    Refines (ListsOf.call b op s).2 (m.step g op).2 :=
  (h.call b op).refines

theorem call_refused (h : Refines s m) {e : Error} (refused : (m.step g op).1 = .error e) :
    ListsOf.call b op s = (.error (.err e), s) := by
  have kept := (h.call b op).refused
  rw [refused] at kept
  rw [h.call_eq b op, refused, kept trivial]
  rfl

/-- A call that puts an item into a list is accepted for a free item, and refused otherwise. -/
theorem inserts_outcome (h : Refines s m) (b : Build) (op : Op V) (names : op.inserts = some (l, x)) :
    (¬ (InRange g l x ∧ ¬ m.Linked x) ∧ ∃ e, ListsOf.call b op s = (.error (.err e), s)) ∨
      (InRange g l x ∧ ¬ m.Linked x) ∧ ∃ s', ListsOf.call b op s = (.ok .unit, s') ∧
        Refines s' ((m.keeping x op.given).place l (m.behind op) x) := by
  have refines := h.call_refines b op
  by_cases range : InRange g l x
  · by_cases linked : m.Linked x
    · refine Or.inl ⟨fun accepted => accepted.2 linked, .busy, h.call_refused ?_⟩
      rw [Model.step_inserts names, Model.insertion_answer, if_neg (not_not.mpr range),
        if_pos linked]
    · have step := Model.step_joins names range linked
      rw [step] at refines
      refine Or.inr ⟨⟨range, linked⟩, _, ?_, refines⟩
      rw [h.call_eq b op, step]
      rfl
  · refine Or.inl ⟨fun accepted => range accepted.1, .invalidArgument, h.call_refused ?_⟩
    rw [Model.step_inserts names, Model.insertion_answer, if_pos range]

theorem insert_outcome (h : Refines s m) (b : Build) (l : ListId) (x : ItemId) (v : V) :
    (¬ (InRange g l x ∧ ¬ m.Linked x) ∧ ∃ e, insert b l x v s = (.error (.err e), s)) ∨
      (InRange g l x ∧ ¬ m.Linked x) ∧ ∃ s', insert b l x v s = (.ok (), s') ∧
        Refines s' ((m.setValue x v).place l (m.above v) x) := by
  rcases h.inserts_outcome b (.insert l x v) rfl with ⟨no, e, refused⟩ | ⟨yes, s', done, after⟩
  · exact Or.inl ⟨no, e, Call.error_of_map refused⟩
  · obtain ⟨⟨⟩, made, -⟩ := Call.ok_of_map done
    exact Or.inr ⟨yes, s', made, after⟩

theorem insertEnd_outcome (h : Refines s m) (b : Build) (l : ListId) (x : ItemId) :
    (¬ (InRange g l x ∧ ¬ m.Linked x) ∧ ∃ e, insertEnd b l x s = (.error (.err e), s)) ∨
      (InRange g l x ∧ ¬ m.Linked x) ∧ ∃ s', insertEnd b l x s = (.ok (), s') ∧
        Refines s' (m.place l (m.atCursor l) x) := by
  rcases h.inserts_outcome b (.insertEnd l x) rfl with ⟨no, e, refused⟩ | ⟨yes, s', done, after⟩
  · exact Or.inl ⟨no, e, Call.error_of_map refused⟩
  · obtain ⟨⟨⟩, made, -⟩ := Call.ok_of_map done
    exact Or.inr ⟨yes, s', made, after⟩

/-- `remove` is accepted exactly for a member, and answers how many are left in its list. -/
theorem remove_outcome (h : Refines s m) (b : Build) (x : ItemId) :
    (m.home x = none ∧ ∃ e, remove b x s = (.error (.err e), s)) ∨
      ∃ l s', m.home x = some l ∧
        remove b x s = (.ok ((m.erase x).rota l).items.length, s') ∧ Refines s' (m.erase x) := by
  have refines := h.call_refines b (.remove x)
  cases home : m.home x with
  | none =>
    have refused : ∃ e, (m.step g (.remove x)).1 = .error e := by
      rw [Model.step, Model.removal, home]
      split
      · exact ⟨_, rfl⟩
      · exact ⟨_, rfl⟩
    obtain ⟨e, refused⟩ := refused
    exact Or.inl ⟨rfl, e, Call.error_of_map (h.call_refused refused)⟩
  | some l =>
    have range := h.item_lt (Model.home_eq_some.mp home)
    have step : m.step g (.remove x) =
        (.ok (.count ((m.erase x).rota l).items.length), m.erase x) := by
      rw [Model.step, Model.removal, if_neg (not_not.mpr range), home]
    rw [step] at refines
    have called := h.call_eq b (.remove x)
    rw [step] at called
    obtain ⟨n, done, counted⟩ := Call.ok_of_map called
    rw [Answer.count.inj counted] at done
    exact Or.inr ⟨l, _, rfl, done, refines⟩

theorem setValue_outcome (h : Refines s m) (b : Build) (x : ItemId) (v : V) :
    (∃ e, setValue b x v s = (.error (.err e), s)) ∨
      ∃ s', setValue b x v s = (.ok (), s') ∧ Refines s' (m.setValue x v) := by
  have refines := h.call_refines b (.setValue x v)
  by_cases range : x.toNat < g.CAPACITY
  · have step : m.step g (.setValue x v) = (.ok .unit, m.setValue x v) := by
      rw [Model.step, if_neg (not_not.mpr range)]
    rw [step] at refines
    have called := h.call_eq b (.setValue x v)
    rw [step] at called
    obtain ⟨⟨⟩, made, -⟩ := Call.ok_of_map called
    exact Or.inr ⟨_, made, refines⟩
  · have refused : (m.step g (.setValue x v)).1 = .error .invalidArgument := by
      rw [Model.step, if_pos range]
    exact Or.inl ⟨_, Call.error_of_map (h.call_refused refused)⟩

theorem turn_outcome (h : Refines s m) (b : Build) (l : ListId) :
    (¬ l.toNat < g.L ∧ ∃ e, nextRoundRobin b l s = (.error (.err e), s)) ∨
      l.toNat < g.L ∧ ∃ s', nextRoundRobin b l s = (.ok (m.rota l).nextUp, s') ∧
        Refines s' (m.advance l) := by
  have refines := h.call_refines b (.nextRoundRobin l)
  by_cases range : l.toNat < g.L
  · have step : m.step g (.nextRoundRobin l) = (.ok (.chosen (m.rota l).nextUp), m.advance l) := by
      rw [Model.step, if_neg (not_not.mpr range)]
    rw [step] at refines
    have called := h.call_eq b (.nextRoundRobin l)
    rw [step] at called
    obtain ⟨i, done, chosen⟩ := Call.ok_of_map called
    rw [Answer.chosen.inj chosen] at done
    exact Or.inr ⟨range, _, done, refines⟩
  · have refused : (m.step g (.nextRoundRobin l)).1 = .error .invalidArgument := by
      rw [Model.step, if_pos range]
    exact Or.inl ⟨range, _, Call.error_of_map (h.call_refused refused)⟩

theorem len_eq (h : Refines s m) (hl : l.toNat < g.L) :
    ListsOf.len l s = (.ok (m.rota l).items.length, s) := by
  rw [ListsOf.len, Call.bind_ok (listMeta_eq hl), h.len l hl]
  rfl

theorem value_eq (h : Refines s m) (b : Build) (hx : x.toNat < g.CAPACITY) :
    ListsOf.value b x s = (.ok (m.value x), s) := by
  rw [ListsOf.value, Call.bind_ok (item_eq hx), Call.pure_apply, ← h.value x hx, valueOf]

omit [ListValue V] in
theorem value_invalid (b : Build) (hx : ¬ x.toNat < g.CAPACITY) (s : ListsOf V g) :
    ListsOf.value b x s = (.error (.err .invalidArgument), s) := by
  rw [ListsOf.value, Call.bind_error (item_invalid hx)]

theorem cursorOf_eq (h : Refines s m) (hl : l.toNat < g.L) :
    ListsOf.cursorOf l s = (.ok ((m.rota l).cursor.getD (g.endOf l)), s) := by
  rw [cursorOf, Call.bind_ok (listMeta_eq hl), h.cursor l hl]
  rfl

theorem isEmpty_eq (h : Refines s m) (hl : l.toNat < g.L) :
    ListsOf.isEmpty l s = (.ok (decide ((m.rota l).items = [])), s) := by
  rw [isEmpty, Call.bind_ok (listMeta_eq hl), Call.pure_apply]
  simp [h.len_eq_zero hl]

end Refines

end RtosCore
