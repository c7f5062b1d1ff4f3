import RtosCore.ArenaContract

/-! One client of the arena among others. As long as there have been fewer than 65,535 inserts, a
client that keeps to the handles it was issued is served as from a ledger of its own, in which
no number is used twice: what it has taken out stays out, what it has put in is as it left it,
and what the others do does not show, unless they leave no room. -/

namespace RtosCore

variable {K : Kind} {T : Type} {p : Shape}

/-- What a client asks for, its objects numbered in the order in which it has put them in. -/
inductive LedgerOp (T : Type)
  | insert (value : T) | tryInsert (value : T)
  | remove (n : ℕ) | discard (n : ℕ)
  | getMut (n : ℕ) (write : T → T) | resolveMut (n : ℕ) (write : T → T)

inductive LedgerAnswer (T : Type)
  | inserted (r : Except Error ℕ) | placed (r : Except T ℕ)
  | taken (value : Option T) | discarded (done : Bool)
  | seen (value : Option T) | resolved (r : Except Error T)

def LedgerOp.number : LedgerOp T → Option ℕ
  | .remove n | .discard n | .getMut n _ | .resolveMut n _ => some n
  | .insert _ | .tryInsert _ => none

def entry (s : List (Option T)) (n : ℕ) : Option T := (s[n]?).join

/-- One request to a ledger. Whether there is room for another object is not the ledger's to say. -/
def LedgerOp.serve (room : Bool) (s : List (Option T)) :
    LedgerOp T → LedgerAnswer T × List (Option T)
  | .insert v =>
    if room then (.inserted (.ok s.length), s ++ [some v]) else (.inserted (.error .noMemory), s)
  | .tryInsert v =>
    if room then (.placed (.ok s.length), s ++ [some v]) else (.placed (.error v), s)
  | .remove n => (.taken (entry s n), s.set n none)
  | .discard n => (.discarded (entry s n).isSome, s.set n none)
  | .getMut n write => (.seen (entry s n), s.modify n (Option.map write))
  | .resolveMut n write =>
    (.resolved ((entry s n).elim (.error .gone) .ok), s.modify n (Option.map write))

def LedgerOp.serveAll : List (Option T) → List (LedgerOp T × Bool) → List (LedgerAnswer T)
  | _, [] => []
  | s, (op, room) :: ops => (op.serve room s).1 :: serveAll (op.serve room s).2 ops

section Entries

variable {s : List (Option T)} {n : ℕ}

theorem entry_append (v : T) (i : ℕ) :
    entry (s ++ [some v]) i = if i = s.length then some v else entry s i := by
  unfold entry
  rcases lt_trichotomy i s.length with inside | rfl | outside
  · rw [if_neg inside.ne, List.getElem?_append_left inside]
  · simp
  · rw [if_neg outside.ne', List.getElem?_eq_none (by simpa [Nat.succ_le_iff] using outside),
      List.getElem?_eq_none outside.le]

theorem entry_set (i : ℕ) : entry (s.set n none) i = if i = n then none else entry s i := by
  unfold entry
  rw [List.getElem?_set]
  rcases eq_or_ne i n with rfl | other
  · rw [if_pos rfl, if_pos rfl]
    split <;> rfl
  · rw [if_neg other.symm, if_neg other]

theorem entry_modify (write : T → T) (i : ℕ) : entry (s.modify n (Option.map write)) i =
    if i = n then (entry s i).map write else entry s i := by
  unfold entry
  rw [List.getElem?_modify]
  rcases eq_or_ne i n with rfl | other
  · rw [if_pos rfl]
    cases s[i]? <;> simp
  · rw [if_neg other]
    cases s[i]? <;> simp [other.symm]

end Entries

namespace LedgerOp

def onArena (issued : List (Handle K)) : LedgerOp T → ArenaOp K T
  | .insert v => .insert v
  | .tryInsert v => .tryInsert v
  | .remove n => .remove (issued.getD n Handle.NULL)
  | .discard n => .discard (issued.getD n Handle.NULL)
  | .getMut n write => .getMut (issued.getD n Handle.NULL) write
  | .resolveMut n write => .resolveMut (issued.getD n Handle.NULL) write

end LedgerOp

/-- What the client makes of an answer. A new object gets the next number; nothing the client
calls lists the arena. -/
def ArenaAnswer.told (next : ℕ) : ArenaAnswer K T → Option (LedgerAnswer T)
  | .inserted r => some (.inserted (r.map fun _ => next))
  | .placed r => some (.placed (r.map fun _ => next))
  | .taken v => some (.taken v)
  | .discarded done => some (.discarded done)
  | .seen v => some (.seen v)
  | .resolved r => some (.resolved r)
  | .each _ => none

def ArenaOp.inserts : ArenaOp K T → ℕ
  | .insert _ | .tryInsert _ => 1
  | _ => 0

def LedgerOp.inserts : LedgerOp T → ℕ
  | .insert _ | .tryInsert _ => 1
  | _ => 0

abbrev ClientScript (K : Kind) (T : Type) : Type := List (LedgerOp T ⊕ ArenaOp K T)

def ClientScript.inserts (script : ClientScript K T) : ℕ :=
  (script.map (Sum.elim LedgerOp.inserts ArenaOp.inserts)).sum

namespace Arena

variable [Inhabited T]

def asked (issued : List (Handle K)) (a : Arena K T p) : ClientScript K T → List (LedgerOp T × Bool)
  | [] => []
  | .inl op :: script =>
    let r := a.call (op.onArena issued)
    (op, decide (a.len < p.N)) :: asked (issued ++ r.1.issued.toList) r.2 script
  | .inr op :: script => asked issued (a.call op).2 script

def told (issued : List (Handle K)) (a : Arena K T p) : ClientScript K T → List (LedgerAnswer T)
  | [] => []
  | .inl op :: script =>
    let r := a.call (op.onArena issued)
    (r.1.told issued.length).toList ++ told (issued ++ r.1.issued.toList) r.2 script
  | .inr op :: script => told issued (a.call op).2 script

/-- The client asks only about objects it has put in. The others present handles that fit, no
live one of the client's, and rewrite none of its objects while they go through all. -/
def Considerate (issued : List (Handle K)) (a : Arena K T p) : ClientScript K T → Prop
  | [] => True
  | .inl op :: script =>
    let r := a.call (op.onArena issued)
    (∀ n, op.number = some n → n < issued.length) ∧
      Considerate (issued ++ r.1.issued.toList) r.2 script
  | .inr op :: script =>
    (∀ h ∈ op.handle, h.Fits ∧ (h ∈ issued → a.get h = none)) ∧
      (∀ write, op = .iterMut write → ∀ h ∈ issued, ∀ v, write h v = v) ∧
      Considerate issued (a.call op).2 script

/-- No slot has been occupied more than `n` times, and no handle issued is from its future. -/
structure Aged (n : ℕ) (a : Arena K T p) (issued : List (Handle K)) : Prop where
  sound : a.Sound
  young : ∀ i g, a.generationAt i = some g → counter g ≤ n + 1
  past : ∀ h ∈ issued, ∃ g, a.generationAt h.index.toNat = some g ∧ h.generation.toNat ≤ counter g

variable {a : Arena K T p} {n : ℕ} {issued : List (Handle K)} {op : ArenaOp K T} {h : Handle K}

omit [Inhabited T] in
theorem inserts_of_issued {answer : ArenaAnswer K T} {N : ℕ} {s s' : KeyedMap (Handle K) T}
    (step : StoreStep N s op answer s') (names : answer.issued = some h) : op.inserts = 1 := by
  cases step with
  | insert | tryInsert => rfl
  | _ => cases names

theorem aged_new : Aged 0 (new : Arena K T p) [] where
  sound := new_sound
  young i g hi := by
    rw [generationAt_new (generationAt_lt hi)] at hi
    rw [← Option.some.inj hi]
    decide
  past h mem := by cases mem

namespace Aged

theorem counter_call (aged : Aged n a issued) (fits : ∀ h ∈ op.handle, h.Fits)
    (few : n + op.inserts ≤ 65534) {i : ℕ} {g : UInt32} (hi : a.generationAt i = some g) :
    ∃ g', (a.call op).2.generationAt i = some g' ∧ counter g ≤ counter g' ∧
      counter g' ≤ n + op.inserts + 1 := by
  have wf := aged.sound.wellFormed i g hi
  have young := aged.young i g hi
  obtain ⟨g', now, moves⟩ := call_moves op hi
  refine ⟨g', now, ?_⟩
  cases moves with
  | kept => omega
  | freed =>
    rw [counter_or_FREE wf]
    omega
  | landed free here =>
    have one := inserts_of_issued (call_store aged.sound op fits).1 here
    rw [counter_occupied, Nat.mod_eq_of_lt (by omega)]
    omega

theorem call (aged : Aged n a issued) (fits : ∀ h ∈ op.handle, h.Fits)
    (few : n + op.inserts ≤ 65534) : Aged (n + op.inserts) (a.call op).2 issued where
  sound := (call_store aged.sound op fits).2
  young i g' now := by
    obtain ⟨g, before⟩ := a.generationAt_exists (generationAt_lt now)
    obtain ⟨g'', now', -, young⟩ := aged.counter_call fits few before
    rwa [Option.some.inj (now.symm.trans now')]
  past h mem := by
    obtain ⟨g, before, below⟩ := aged.past h mem
    obtain ⟨g', now, grown, -⟩ := aged.counter_call fits few before
    exact ⟨g', now, below.trans grown⟩

/-- A handle that is issued is newer than every handle of its slot issued so far. -/
theorem fresh (aged : Aged n a issued) (fits : ∀ h ∈ op.handle, h.Fits)
    (few : n + op.inserts ≤ 65534) (names : (a.call op).1.issued = some h) :
    h ∉ issued ∧ Aged (n + op.inserts) (a.call op).2 (issued ++ [h]) := by
  have later := aged.call fits few
  have one := inserts_of_issued (call_store aged.sound op fits).1 names
  obtain ⟨i, g, before, -, rfl, now⟩ := call_issued names
  have index := ofNat_index (generationAt_lt before)
  have young := aged.young i g before
  constructor
  · intro mem
    obtain ⟨g', here, below⟩ := aged.past _ mem
    change a.generationAt (UInt32.ofNat i).toNat = some g' at here
    rw [index, before] at here
    change (occupied g).toNat ≤ counter g' at below
    rw [← Option.some.inj here, toNat_occupied, Nat.mod_eq_of_lt (by omega)] at below
    omega
  · refine ⟨later.sound, later.young, fun h mem => ?_⟩
    rcases List.mem_append.mp mem with old | new
    · exact later.past h old
    · rw [List.mem_singleton.mp new]
      exact ⟨_, index.symm ▸ now, (toNat_eq_counter occupied_lt).le⟩

end Aged

omit [Inhabited T] in
theorem lookup_others {N : ℕ} {s s' : KeyedMap (Handle K) T} {answer : ArenaAnswer K T}
    (step : StoreStep N s op answer s') (fresh : answer.issued ≠ some h)
    (dead : op.handle = some h → s.lookup h = none)
    (kept : ∀ write, op = .iterMut write → ∀ v, write h v = v) : s'.lookup h = s.lookup h := by
  cases step with
  | insertFull | tryInsertFull => rfl
  | insert | tryInsert =>
    rw [KeyedMap.lookup_insert, if_neg]
    rintro rfl
    exact fresh rfl
  | remove | discard =>
    rw [KeyedMap.lookup_erase]
    split
    · rename_i same
      exact (dead (congrArg some same.symm)).symm
    · rfl
  | getMut | resolveMut =>
    rw [KeyedMap.lookup_adjust]
    split
    · rename_i same
      rw [dead (congrArg some same.symm)]
      rfl
    · rfl
  | iterMut =>
    rw [KeyedMap.lookup_revise]
    cases stored : s.lookup h with
    | none => rfl
    | some v => exact congrArg some (kept _ rfl v)

structure Serves (n : ℕ) (a : Arena K T p) (issued : List (Handle K)) (s : List (Option T)) :
    Prop where
  aged : Aged n a issued
  nodup : issued.Nodup
  length : s.length = issued.length
  fits : ∀ h ∈ issued, h.Fits ∧ 0 < h.generation.toNat
  holds : ∀ i h, issued[i]? = some h → a.objects.lookup h = entry s i

theorem serves_new : Serves 0 (new : Arena K T p) [] [] :=
  ⟨aged_new, List.nodup_nil, rfl, by simp, by simp⟩

namespace Serves

variable {s : List (Option T)}

theorem others (serves : Serves n a issued s)
    (named : ∀ h ∈ op.handle, h.Fits ∧ (h ∈ issued → a.get h = none))
    (kept : ∀ write, op = .iterMut write → ∀ h ∈ issued, ∀ v, write h v = v)
    (few : n + op.inserts ≤ 65534) : Serves (n + op.inserts) (a.call op).2 issued s := by
  have fits : ∀ h ∈ op.handle, h.Fits := fun h mem => (named h mem).1
  refine ⟨serves.aged.call fits few, serves.nodup, serves.length, serves.fits, fun i h here => ?_⟩
  have mem : h ∈ issued := List.mem_of_getElem? here
  rw [← serves.holds i h here]
  refine lookup_others (call_store serves.aged.sound op fits).1 (fun names => ?_) (fun names => ?_)
    fun write same => kept write same h mem
  · exact (serves.aged.fresh fits few names).1 mem
  · rw [lookup_fits serves.aged.sound (serves.fits h mem).1]
    exact (named h names).2 mem

theorem enter (serves : Serves n a issued s) {v : T} (fits : ∀ h ∈ op.handle, h.Fits)
    (few : n + op.inserts ≤ 65534) (names : (a.call op).1.issued = some h)
    (stored : (a.call op).2.objects = a.objects.insert h v) :
    Serves (n + op.inserts) (a.call op).2 (issued ++ [h]) (s ++ [some v]) := by
  obtain ⟨fresh, aged⟩ := serves.aged.fresh fits few names
  have own : h.Fits ∧ 0 < h.generation.toNat := by
    refine issued_fits (a := a) [op] ?_
    simp [run, issuedBy, names]
  constructor
  case aged => exact aged
  case nodup => exact List.nodup_append.mpr ⟨serves.nodup, List.nodup_singleton h, by
    rintro x hx y hy rfl
    exact fresh (List.mem_singleton.mp hy ▸ hx)⟩
  case length => simp [serves.length]
  case fits =>
    intro h' mem
    rcases List.mem_append.mp mem with old | new
    · exact serves.fits h' old
    · rw [List.mem_singleton.mp new]
      exact own
  case holds =>
    intro i h' here
    rw [stored, KeyedMap.lookup_insert, entry_append, serves.length]
    rcases lt_or_ge i issued.length with inside | outside
    · rw [List.getElem?_append_left inside] at here
      have other : h' ≠ h := fun same => fresh (same ▸ List.mem_of_getElem? here)
      rw [if_neg other, if_neg inside.ne]
      exact serves.holds i h' here
    · rw [List.getElem?_append_right outside] at here
      have last : i = issued.length := by
        have := (List.getElem?_eq_some_iff.mp here).1
        simp at this
        omega
      subst last
      rw [Nat.sub_self] at here
      rw [if_pos (Option.some.inj here).symm, if_pos rfl]

omit [Inhabited T] in
theorem edit (serves : Serves n a issued s) {k : ℕ} (here : issued[k]? = some h)
    {b : Arena K T p} {s' : List (Option T)} (f : Option T → Option T) (aged : Aged n b issued)
    (length : s'.length = s.length)
    (stored : ∀ h', b.objects.lookup h' = if h' = h then f (a.objects.lookup h')
      else a.objects.lookup h')
    (entries : ∀ i, entry s' i = if i = k then f (entry s i) else entry s i) :
    Serves n b issued s' := by
  refine ⟨aged, serves.nodup, length.trans serves.length, serves.fits, fun i h' there => ?_⟩
  have same : h' = h ↔ i = k := by
    constructor
    · rintro rfl
      exact (List.getElem?_inj (List.getElem?_eq_some_iff.mp there).1 serves.nodup).mp
        (there.trans here.symm)
    · rintro rfl
      exact Option.some.inj (there.symm.trans here)
  rw [stored, entries, serves.holds i h' there]
  exact if_congr same rfl rfl

omit [Inhabited T] in
theorem named (serves : Serves n a issued s) {k : ℕ} (known : k < issued.length) :
    ∃ h, issued[k]? = some h ∧ issued.getD k Handle.NULL = h ∧ h.Fits ∧
      a.objects.lookup h = entry s k := by
  have here := List.getElem?_eq_getElem known
  have mem := List.mem_of_getElem? here
  exact ⟨issued[k], here, by rw [List.getD_eq_getElem?_getD, here]; rfl, (serves.fits _ mem).1,
    serves.holds k _ here⟩

omit [Inhabited T] in
theorem resolution_eq (serves : Serves n a issued s) {k : ℕ} (here : issued[k]? = some h) :
    resolution p.N h (a.objects.lookup h) = (entry s k).elim (.error .gone) .ok := by
  have mem := List.mem_of_getElem? here
  obtain ⟨g, now, -⟩ := serves.aged.past h mem
  have inside := generationAt_lt now
  have notNull : h.isNull = false := by
    have positive := (serves.fits h mem).2
    rw [Handle.isNull, decide_eq_false_iff_not]
    intro zero
    rw [zero] at positive
    exact absurd positive (by decide)
  rw [serves.holds k h here]
  cases entry s k with
  | none => simp [resolution, inside, why, notNull]
  | some v => rfl

theorem take (serves : Serves n a issued s) (op : ArenaOp K T) {k : ℕ} (here : issued[k]? = some h)
    (fits : ∀ h ∈ op.handle, h.Fits) (idle : op.inserts = 0) (few : n ≤ 65534)
    (stored : (a.call op).2.objects = a.objects.erase h) :
    Serves n (a.call op).2 issued (s.set k none) := by
  have aged := serves.aged.call fits (by omega)
  rw [idle] at aged
  refine serves.edit here (fun _ => none) aged (List.length_set ..) (fun h' => ?_)
    fun i => entry_set i
  rw [stored, KeyedMap.lookup_erase]

theorem write (serves : Serves n a issued s) (op : ArenaOp K T) {k : ℕ}
    (here : issued[k]? = some h) (fits : ∀ h ∈ op.handle, h.Fits) (idle : op.inserts = 0)
    (few : n ≤ 65534) (f : T → T)
    (stored : (a.call op).2.objects = KeyedMap.adjust h f a.objects) :
    Serves n (a.call op).2 issued (s.modify k (Option.map f)) := by
  have aged := serves.aged.call fits (by omega)
  rw [idle] at aged
  refine serves.edit here (Option.map f) aged (List.length_modify ..) (fun h' => ?_)
    fun i => entry_modify f i
  rw [stored, KeyedMap.lookup_adjust]

theorem insert_call (serves : Serves n a issued s) (v : T) (few : n + 1 ≤ 65534) :
    (¬ a.len < p.N ∧ a.tryInsert v = (.error v, a) ∧ Serves (n + 1) a (issued ++ []) s) ∨
      ∃ h, a.len < p.N ∧ (a.tryInsert v).1 = .ok h ∧
        Serves (n + 1) (a.tryInsert v).2 (issued ++ [h]) (s ++ [some v]) := by
  have room : n + (ArenaOp.tryInsert v : ArenaOp K T).inserts ≤ 65534 := few
  have len := serves.aged.sound.len
  rcases tryInsert_store serves.aged.sound v with ⟨full, refused⟩ | ⟨h, free, -, answer, stored, -⟩
  · have later := serves.others (by rintro h ⟨⟩) (by rintro write ⟨⟩) room
    rw [Arena.call, refused] at later
    rw [List.append_nil]
    exact Or.inl ⟨(len.trans full).not_lt, refused, later⟩
  · have names : (a.call (.tryInsert v)).1.issued = some h := by
      change (ArenaAnswer.placed (a.tryInsert v).1).issued = some h
      rw [answer]
      rfl
    exact Or.inr ⟨h, len.trans_lt free, answer,
      serves.enter (by rintro h ⟨⟩) room names stored⟩

theorem own (serves : Serves n a issued s) (op : LedgerOp T)
    (known : ∀ k, op.number = some k → k < issued.length) (few : n + op.inserts ≤ 65534) :
    (a.call (op.onArena issued)).1.told issued.length = some (op.serve (decide (a.len < p.N)) s).1 ∧
      Serves (n + op.inserts) (a.call (op.onArena issued)).2
        (issued ++ (a.call (op.onArena issued)).1.issued.toList)
        (op.serve (decide (a.len < p.N)) s).2 := by
  have sound := serves.aged.sound
  have given : ∀ h : Handle K, h.Fits → ∀ h' ∈ some h, h'.Fits :=
    fun h fits h' mem => Option.mem_some.mp mem ▸ fits
  -- Only an insert is answered with a handle.
  have keeps : ∀ (asked : ArenaOp K T) (s' : List (Option T)), (a.call asked).1.issued = none →
      Serves n (a.call asked).2 issued s' →
      Serves n (a.call asked).2 (issued ++ (a.call asked).1.issued.toList) s' := by
    intro asked s' quiet later
    rwa [quiet, Option.toList_none, List.append_nil]
  cases op with
  | insert v =>
    rcases serves.insert_call v few with ⟨full, refused, later⟩ | ⟨h, free, answer, later⟩
    · have left : a.call (.insert v) = (.inserted (.error .noMemory), a) := by
        simp only [Arena.call, Arena.insert, refused]
        rfl
      rw [LedgerOp.onArena, left, LedgerOp.serve, decide_eq_false full]
      exact ⟨rfl, later⟩
    · have done : a.call (.insert v) = (.inserted (.ok h), (a.tryInsert v).2) := by
        simp only [Arena.call, Arena.insert, answer]
        rfl
      rw [LedgerOp.onArena, done, LedgerOp.serve, decide_eq_true free, serves.length]
      exact ⟨rfl, later⟩
  | tryInsert v =>
    rcases serves.insert_call v few with ⟨full, refused, later⟩ | ⟨h, free, answer, later⟩
    · rw [LedgerOp.onArena, Arena.call, refused, LedgerOp.serve, decide_eq_false full]
      exact ⟨rfl, later⟩
    · rw [LedgerOp.onArena, Arena.call, answer, LedgerOp.serve, decide_eq_true free, serves.length]
      exact ⟨rfl, later⟩
  | remove k =>
    obtain ⟨h, here, name, fits, holds⟩ := serves.named (known k rfl)
    obtain ⟨answer, stored, -⟩ := remove_store sound fits
    rw [LedgerOp.onArena, name]
    constructor
    · change some (LedgerAnswer.taken (a.remove h).1) = _
      rw [answer, holds]
      rfl
    · exact keeps (.remove h) _ rfl (serves.take (.remove h) here (given h fits) rfl few stored)
  | discard k =>
    obtain ⟨h, here, name, fits, holds⟩ := serves.named (known k rfl)
    obtain ⟨answer, stored, -⟩ := discard_store sound fits
    rw [LedgerOp.onArena, name]
    constructor
    · change some (LedgerAnswer.discarded (a.discard h).1) = _
      rw [answer, holds]
      rfl
    · exact keeps (.discard h) _ rfl (serves.take (.discard h) here (given h fits) rfl few stored)
  | getMut k f =>
    obtain ⟨h, here, name, fits, holds⟩ := serves.named (known k rfl)
    obtain ⟨answer, stored, -⟩ := getMut_store sound fits f
    rw [LedgerOp.onArena, name]
    constructor
    · change some (LedgerAnswer.seen (a.getMut h f).1) = _
      rw [answer, holds]
      rfl
    · exact keeps (.getMut h f) _ rfl
        (serves.write (.getMut h f) here (given h fits) rfl few f stored)
  | resolveMut k f =>
    obtain ⟨h, here, name, fits, holds⟩ := serves.named (known k rfl)
    obtain ⟨-, stored, -⟩ := getMut_store sound fits f
    have answer : (a.resolveMut h f).1 = (entry s k).elim (.error .gone) .ok := by
      rw [resolveMut_eq, resolve_eq a fits, ← lookup_fits sound fits, serves.resolution_eq here]
    rw [LedgerOp.onArena, name]
    constructor
    · change some (LedgerAnswer.resolved (a.resolveMut h f).1) = _
      rw [answer]
      rfl
    · refine keeps (.resolveMut h f) _ rfl
        (serves.write (.resolveMut h f) here (given h fits) rfl few f ?_)
      rw [Arena.call, resolveMut_eq, stored]

theorem script_run (script : ClientScript K T) (serves : Serves n a issued s)
    (considerate : Considerate issued a script) (few : n + script.inserts ≤ 65534) :
    told issued a script = LedgerOp.serveAll s (asked issued a script) := by
  induction script generalizing n a issued s with
  | nil => rfl
  | cons entry script ih =>
    cases entry with
    | inl op =>
      obtain ⟨known, rest⟩ := considerate
      change n + (op.inserts + ClientScript.inserts script) ≤ 65534 at few
      obtain ⟨answer, later⟩ := serves.own op known (by omega)
      change ((a.call (op.onArena issued)).1.told issued.length).toList ++ _ = _
      rw [answer, ih later rest (by omega)]
      rfl
    | inr op =>
      obtain ⟨named, kept, rest⟩ := considerate
      change n + (op.inserts + ClientScript.inserts script) ≤ 65534 at few
      exact ih (serves.others named kept (by omega)) rest (by omega)

end Serves

end Arena

/-- As long as there have been fewer than 65,535 inserts in all, a client that asks only about
objects it has put in is answered as by a ledger of its own, whatever others call through handles
that fit a word and are not live ones of the client's. All that it notices of them is whether
there is room: no number comes to stand for another object, however often the slots are reused. -/
theorem arena_serves_clients_apart [Inhabited T] (script : ClientScript K T)
    (considerate : Arena.Considerate [] (Arena.new : Arena K T p) script)
    (few : script.inserts ≤ 65534) :
    Arena.told [] (Arena.new : Arena K T p) script =
      LedgerOp.serveAll [] (Arena.asked [] (Arena.new : Arena K T p) script) :=
  Arena.serves_new.script_run script considerate (by omega)

def askedAgain : ClientScript .task ℕ :=
  [.inl (.insert 3), .inl (.remove 0), .inr (.insert 7), .inl (.getMut 0 (· + 1))]

theorem considerate_askedAgain :
    Arena.Considerate [] (Arena.new : Arena .task ℕ Shape.one) askedAgain := by
  refine ⟨by rintro n ⟨⟩, ?_, by rintro h ⟨⟩, by rintro write ⟨⟩, ?_, trivial⟩
  all_goals
    intro n asked
    cases asked
    decide

theorem arena_serves_clients_apart_one :
    Arena.told [] (Arena.new : Arena .task ℕ Shape.one) askedAgain =
      LedgerOp.serveAll [] (Arena.asked [] (Arena.new : Arena .task ℕ Shape.one) askedAgain) :=
  arena_serves_clients_apart askedAgain considerate_askedAgain (by decide)

end RtosCore
