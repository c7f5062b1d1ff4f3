import RtosCore.ListOutcomes
import RtosCore.Tick
import RtosCore.WakeOrder

/-! Two delayed lists for a count that wraps. A wake time is filed under its wrapped count, in the
overflow list if it lies beyond the wrap. Read one after the other, the two lists are in order of
the wake times as they really are. -/

namespace RtosCore

/-- An item that is to wake some ticks after `since`, at most the longest wait there is. -/
structure Sleep (W : TickWidth) where
  item : ItemId
  since : Tick W
  ticks : UInt64
  narrow : ticks ≤ W.MAX

namespace Sleep

variable {W : TickWidth} (p : Sleep W) (current overflow : ListId)

def deadline : ℕ := p.since.get.toNat + p.ticks.toNat

def key : UInt64 := (p.since.wrappingAdd p.ticks).get

def list : ListId := if p.since.overflowsBy p.ticks then overflow else current

def op : Op UInt64 := .insert (p.list current overflow) p.item p.key

def laps : ℕ := if p.since.overflowsBy p.ticks then 1 else 0

theorem key_lt : p.key.toNat < W.period := (p.since.wrappingAdd p.ticks).get_lt_period

theorem deadline_eq : p.deadline = p.key.toNat + p.laps * W.period := by
  have start := p.since.get_lt_period
  have step : p.ticks.toNat < W.period :=
    W.lt_period.mpr (UInt64.le_iff_toNat_le.mp p.narrow)
  rw [deadline, key, laps, Tick.toNat_wrappingAdd]
  have test := p.since.overflowsBy_iff p.ticks
  rw [← not_le, ← W.lt_period] at test
  split_ifs with wraps
  · have beyond := test.mp wraps
    rw [Nat.mod_eq_sub_mod (by omega), Nat.mod_eq_of_lt (by omega)]
    omega
  · have within : p.since.get.toNat + p.ticks.toNat < W.period := by
      by_contra beyond
      exact wraps (test.mpr beyond)
    rw [Nat.mod_eq_of_lt within]
    omega

end Sleep

inductive DelayCall (W : TickWidth)
  | sleep (p : Sleep W) | other (op : Op UInt64)

def DelayCall.op {W : TickWidth} (current overflow : ListId) : DelayCall W → Op UInt64
  | .sleep p => p.op current overflow
  | .other op => op

structure Ledger where
  deadline : ItemId → ℕ
  time : ItemId → ℕ

def Ledger.note {W : TickWidth} (ledger : Ledger) (now : ℕ) (p : Sleep W) : Ledger where
  deadline := Function.update ledger.deadline p.item p.deadline
  time := Function.update ledger.time p.item now

theorem Ledger.note_deadline {W : TickWidth} (ledger : Ledger) (now : ℕ) (p : Sleep W)
    (y : ItemId) : (ledger.note now p).deadline y =
      if y = p.item then p.deadline else ledger.deadline y := Function.update_apply ..

theorem Ledger.note_time {W : TickWidth} (ledger : Ledger) (now : ℕ) (p : Sleep W) (y : ItemId) :
    (ledger.note now p).time y = if y = p.item then now else ledger.time y :=
  Function.update_apply ..

namespace Op

variable {V : Type}

def Elsewhere (l : ListId) (members : List ItemId) (op : Op V) : Prop :=
  op.Timed l members ∧ ∀ k x, op.inserts = some (k, x) → k ≠ l

end Op

variable {g : Sizes} {W : TickWidth}

namespace ListsOf

def entry (now : ℕ) (book : Ledger) : DelayCall W → Except Exit Answer → Ledger
  | .sleep p, .ok _ => book.note now p
  | .sleep _, .error _ => book
  | .other _, _ => book

def ledger (b : Build) (current overflow : ListId) :
    ℕ → List (DelayCall W) → ListsOf UInt64 g → Ledger → Ledger
  | _, [], _, book => book
  | now, c :: cs, s, book =>
    let first := call b (c.op current overflow) s
    ledger b current overflow (now + 1) cs first.2 (entry now book c first.1)

/-- Nobody but the sleepers joins the two lists, and nobody's key is changed while it sleeps. -/
def DelayRun (b : Build) (current overflow : ListId) :
    List (DelayCall W) → ListsOf UInt64 g → Prop
  | [], _ => True
  | c :: cs, s =>
    (∀ op, c = .other op → op.Elsewhere current (s.visited current) ∧
      op.Elsewhere overflow (s.visited overflow)) ∧
    DelayRun b current overflow cs (call b (c.op current overflow) s).2

structure WakesAcrossWrap (W : TickWidth) (current overflow : ListId) (book : Ledger)
    (s : ListsOf UInt64 g) : Prop where
  keys : ∀ x ∈ s.visited current, book.deadline x = (s.valueOf x).toNat
  wrapped : ∀ x ∈ s.visited overflow, book.deadline x = (s.valueOf x).toNat + W.period
  within : ∀ x ∈ s.visited current, book.deadline x < W.period
  order : (s.visited current ++ s.visited overflow).Pairwise (Before book.deadline book.time)

end ListsOf

namespace Model

variable {m m' : Model UInt64} {l k : ListId} {op : Op UInt64} {a : Except Error Answer}
  {book book' : Ledger} {now now' lap : ℕ} {x : ItemId}

/-- List `l` is sorted by key, and its keys are the wake times `lap` times wrapped. -/
structure Filed (W : TickWidth) (m : Model UInt64) (book : Ledger) (now : ℕ) (l : ListId)
    (lap : ℕ) : Prop where
  order : InOrder m.value book.time now (m.rota l).items
  key : ∀ x ∈ (m.rota l).items, (m.value x).toNat < W.period ∧
    book.deadline x = (m.value x).toNat + lap * W.period

theorem Filed.stay (h : Filed W m book now l lap)
    (sub : (m'.rota l).items.Sublist (m.rota l).items)
    (same : ∀ y ∈ (m'.rota l).items, m'.value y = m.value y) (later : now ≤ now') :
    Filed W m' book now' l lap where
  order := h.order.stay sub same (fun _ _ => rfl) later
  key y hy := by
    rw [same y hy]
    exact h.key y (sub.subset hy)

theorem Filed.sleep (h : Filed W m book now l lap) (p : Sleep W) (free : ¬ m.Linked p.item)
    (filed : k = l → p.laps = lap) :
    Filed W ((m.setValue p.item p.key).place k (m.above p.key) p.item) (book.note now p) (now + 1)
      l lap := by
  have free' : ¬ (m.setValue p.item p.key).Linked p.item := mt linked_setValue.mp free
  have placed := order_placed (k := k) (p := m.above p.key) h.order free (some p.key) fun _ y _ => by
    rw [keeping, setValue_value, if_pos rfl]
    rfl
  have members : ∀ y, y ∈ (((m.setValue p.item p.key).place k (m.above p.key) p.item).rota l).items ↔
      (l = k ∧ y = p.item) ∨ y ∈ (m.rota l).items := fun y => mem_place free'
  have old : ∀ y ∈ (m.rota l).items, y ≠ p.item := fun y hy e => notMem_of_free free (e ▸ hy)
  constructor
  · refine placed.stay (List.Sublist.refl _) (fun _ _ => rfl) (fun y hy => ?_) le_rfl
    rw [Ledger.note_time]
    rcases (members y).mp hy with ⟨rfl, rfl⟩ | hy
    · rw [if_pos rfl, if_pos ⟨rfl, rfl⟩]
    · rw [if_neg (old y hy), if_neg fun e => old y hy e.2]
  · intro y hy
    rw [place_value, setValue_value, Ledger.note_deadline]
    rcases (members y).mp hy with ⟨rfl, rfl⟩ | hy
    · rw [if_pos rfl, if_pos rfl, p.deadline_eq, filed rfl]
      exact ⟨p.key_lt, rfl⟩
    · rw [if_neg (old y hy), if_neg (old y hy)]
      exact h.key y hy

theorem Effect.elsewhere (effect : Effect m op a m')
    (elsewhere : op.Elsewhere l (m.rota l).items) :
    (m'.rota l).items.Sublist (m.rota l).items ∧
      ∀ y ∈ (m'.rota l).items, m'.value y = m.value y := by
  obtain ⟨timed, outside⟩ := elsewhere
  cases effect with
  | refused => exact ⟨List.Sublist.refl _, fun _ _ => rfl⟩
  | stayed => exact ⟨List.Sublist.refl _, fun _ _ => rfl⟩
  | @joined _ k x names free =>
    have other := outside k x names
    rw [place_rota_ne (Ne.symm other), Refines.keeping_rota, place_value]
    refine ⟨List.Sublist.refl _, fun y hy => keeping_value_ne (fun e => ?_) _⟩
    exact notMem_of_free free (e ▸ hy)
  | left => exact ⟨List.erase_sublist, fun _ _ => rfl⟩
  | @moved k x member =>
    have same : (m.moveToEnd k x).rota l = m.rota l := rota_moveToEnd_ne member (Ne.symm timed)
    rw [same, moveToEnd, place_value, erase_value]
    exact ⟨List.Sublist.refl _, fun _ _ => rfl⟩
  | valued x v =>
    refine ⟨List.Sublist.refl _, fun y hy => ?_⟩
    exact (setValue_value v).trans (if_neg fun e : y = x => timed (e ▸ hy))
  | advanced k =>
    rw [advance_items]
    exact ⟨List.Sublist.refl _, fun _ _ => rfl⟩

end Model

namespace Refines

open ListsOf

variable {s : ListsOf UInt64 g} {m : Model UInt64} {b : Build} {current overflow : ListId}
  {book : Ledger} {now : ℕ} {cs : List (DelayCall W)}

theorem filed_run (h : Refines s m) (apart : current ≠ overflow)
    (filed : m.Filed W book now current 0) (beyond : m.Filed W book now overflow 1)
    (run : DelayRun b current overflow cs s) :
    ∃ m', Refines (ListsOf.after b (cs.map (DelayCall.op current overflow)) s) m' ∧
      m'.Filed W (ledger b current overflow now cs s book) (now + cs.length) current 0 ∧
      m'.Filed W (ledger b current overflow now cs s book) (now + cs.length) overflow 1 := by
  induction cs generalizing s m book now with
  | nil => exact ⟨m, h, filed, beyond⟩
  | cons c cs ih =>
    obtain ⟨elsewhere, rest⟩ := run
    rw [List.length_cons, Nat.add_comm cs.length, ← Nat.add_assoc]
    cases c with
    | other op =>
      obtain ⟨fromCurrent, fromOverflow⟩ := elsewhere op rfl
      rw [h.visited_eq] at fromCurrent fromOverflow
      have effect := m.step_effect g op
      obtain ⟨sub, same⟩ := effect.elsewhere fromCurrent
      obtain ⟨sub', same'⟩ := effect.elsewhere fromOverflow
      exact ih (h.call_refines b op) (filed.stay sub same (Nat.le_succ now))
        (beyond.stay sub' same' (Nat.le_succ now)) rest
    | sleep p =>
      rcases h.inserts_outcome b (p.op current overflow) rfl with
        ⟨-, e, refused⟩ | ⟨⟨-, free⟩, s', placed, after⟩
      · have next : ListsOf.call b (DelayCall.op current overflow (.sleep p)) s = (.error (.err e), s) :=
          refused
        rw [next] at rest
        rw [List.map_cons, ListsOf.after, ListsOf.run, ledger, next]
        exact ih h (filed.stay (List.Sublist.refl _) (fun _ _ => rfl) (Nat.le_succ now))
          (beyond.stay (List.Sublist.refl _) (fun _ _ => rfl) (Nat.le_succ now)) rest
      · have next : ListsOf.call b (DelayCall.op current overflow (.sleep p)) s = (.ok .unit, s') :=
          placed
        rw [next] at rest
        rw [List.map_cons, ListsOf.after, ListsOf.run, ledger, next]
        refine ih after (filed.sleep p free fun into => ?_) (beyond.sleep p free fun into => ?_) rest
        · unfold Sleep.list at into
          unfold Sleep.laps
          split_ifs at into ⊢
          · exact absurd into.symm apart
          · rfl
        · unfold Sleep.list at into
          unfold Sleep.laps
          split_ifs at into ⊢
          · rfl
          · exact absurd into apart

theorem wakesAcrossWrap (h : Refines s m) (filed : m.Filed W book now current 0)
    (beyond : m.Filed W book now overflow 1) : WakesAcrossWrap W current overflow book s := by
  have value : ∀ l, ∀ x ∈ (m.rota l).items, s.valueOf x = m.value x := fun l x hx =>
    h.value x (h.item_lt hx)
  have ordered : ∀ l lap, m.Filed W book now l lap →
      (m.rota l).items.Pairwise (Before book.deadline book.time) := fun l lap filed =>
    filed.order.sorted.imp_of_mem fun {x y} hx hy before => by
      rw [Before, (filed.key x hx).2, (filed.key y hy).2]
      rcases before with less | ⟨same, earlier⟩
      · exact Or.inl (Nat.add_lt_add_right less _)
      · exact Or.inr ⟨by rw [same], earlier⟩
  constructor
  case keys =>
    intro x hx
    rw [h.visited_eq] at hx
    rw [(filed.key x hx).2, value _ x hx, Nat.zero_mul, Nat.add_zero]
  case wrapped =>
    intro x hx
    rw [h.visited_eq] at hx
    rw [(beyond.key x hx).2, value _ x hx, Nat.one_mul]
  case within =>
    intro x hx
    rw [h.visited_eq] at hx
    rw [(filed.key x hx).2, Nat.zero_mul, Nat.add_zero]
    exact (filed.key x hx).1
  case order =>
    rw [h.visited_eq, h.visited_eq]
    refine List.pairwise_append.mpr ⟨ordered _ _ filed, ordered _ _ beyond, fun x hx y hy => ?_⟩
    refine Or.inl ?_
    have soon := filed.key x hx
    have late := beyond.key y hy
    omega

end Refines

end RtosCore
