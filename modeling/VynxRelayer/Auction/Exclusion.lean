import VynxRelayer.Auction.Atomicity

/-!
# Neither races nor deadlocks

Two questions about the engine with its locks that the engine of sections cannot ask.

A **race** is two threads about to access the same memory at the same time, one of them to write it.
`access` says what the next step of a thread reads or writes, and that it says so rightly is proved
against the methods: a step changes nothing else (`StartPc.step_writes` and its like), and what it
does depends on nothing else (`StartPc.step_reads`). No two threads ever race (`race_free`).

A **deadlock** is a thread that waits for one that cannot move. No method takes a lock while it is
inside another one, so a thread inside a lock can always move on, and a thread that has to wait does
so for one that is inside, or for a writer that waits for readers who are (`never_stuck`).
-/

namespace VynxRelayer.Auction.Locked

open Lib

/-! ## Memory accesses -/

/-- What the threads share, the voucher channel apart: the map, and the bids of each entry. -/
inductive Place where
  | auctions
  | bids (p : EntryPtr)
  deriving DecidableEq

inductive Mode where
  | read
  | write
  deriving DecidableEq

/-- What the next step of a thread accesses. -/
def StartPc.access : StartPc → Option (Place × Mode)
  | .locked _ => some (.auctions, .read)
  | .vacant _ => some (.auctions, .write)
  | _ => none

@[inherit_doc StartPc.access]
def BidPc.access : BidPc → Option (Place × Mode)
  | .rlocked _ => some (.auctions, .read)
  | .holding _ p => some (.bids p, .read)
  | .fetched _ p _ => some (.bids p, .write)
  | _ => none

@[inherit_doc StartPc.access]
def TaskPc.access : TaskPc → Option (Place × Mode)
  | .rlocked => some (.auctions, .read)
  | .holding p => some (.bids p, .read)
  | .comparing p _ _ (_ :: _) => some (.bids p, .read)
  | .locked => some (.auctions, .write)
  | _ => none

def State.access (s : State) : Thread → Option (Place × Mode)
  | .start c => (s.starts c).bind StartPc.access
  | .bid c => (s.bids c).bind BidPc.access
  | .task g => (s.tasks g).bind fun task => task.pc.access

/-- Two memories that do not differ at a place. -/
def Agree (e e' : Engine) : Place → Prop
  | .auctions => e'.auctions = e.auctions
  | .bids p => bidsOf e' p = bidsOf e p

/-- A step from memory `e` to memory `e'` writes what `access` says, and nothing else; but for the
bids of an entry that did not exist before. -/
def Writes (access : Option (Place × Mode)) (e e' : Engine) : Prop :=
  ∀ place, ¬ Agree e e' place →
    access = some (place, .write) ∨ ∃ p, place = .bids p ∧ bidsOf e p = none

theorem Writes.refl {access : Option (Place × Mode)} {e : Engine} : Writes access e e := by
  intro place hne
  cases place <;> exact absurd rfl hne

theorem StartPc.step_writes {c : CallId} {e : Engine} {pc : StartPc} {eff : Effect StartPc}
    (does : pc.step c e = some eff) (unborn : ∀ intent, pc = .vacant intent → bidsOf e c = none) :
    Writes pc.access e eff.engine := by
  cases pc with
  | vacant intent =>
    cases does
    intro place hne
    cases place with
    | auctions => exact .inl rfl
    | bids p =>
      by_cases hp : p = c
      · subst hp
        exact .inr ⟨p, rfl, unborn intent rfl⟩
      · exact absurd (bidsOf_insert e c intent p hp) hne
  | locked intent =>
    simp only [step] at does
    split at does <;> cases does <;> exact .refl
  | returned => cases does
  | _ => cases does; exact .refl

theorem BidPc.step_writes {c : CallId} {e : Engine} {pc : BidPc} {eff : Effect BidPc}
    (does : pc.step c e = some eff) : Writes pc.access e eff.engine := by
  cases pc with
  | fetched bid p seen =>
    cases does
    intro place hne
    cases place with
    | auctions => exact absurd rfl hne
    | bids q =>
      by_cases hq : q = p
      · subst hq
        exact .inl rfl
      · exact absurd (bidsOf_writeBids e p _ q hq) hne
  | entered _ | rlocked _ | holding _ _ =>
    simp only [step] at does
    split at does <;> cases does <;> exact .refl
  | read bid p => cases p <;> cases does <;> exact .refl
  | returned => cases does
  | _ => cases does; exact .refl

theorem TaskPc.step_writes {g : CallId} {intent : Ref Intent} {e : Engine} {pc : TaskPc}
    {eff : Effect TaskPc} (does : pc.step g intent e = some eff) :
    Writes pc.access e eff.engine := by
  have hchan : ∀ voucherCh, Writes pc.access e { e with voucherCh } := by
    intro voucherCh place hne
    cases place <;> exact absurd rfl hne
  cases pc with
  | locked =>
    cases does
    intro place hne
    cases place with
    | auctions => exact .inl rfl
    | bids p => exact absurd rfl hne
  | located p => cases p <;> cases does <;> exact .refl
  | holding p =>
    simp only [step] at does
    split at does <;> cases does
    exact .refl
  | comparing p seen winner rest => cases rest <;> cases does <;> exact .refl
  | chosen winner =>
    cases winner with
    | none => cases does; exact .refl
    | some winner =>
      simp only [step] at does
      split at does <;> cases does
      · exact hchan _
      · exact .refl
  | launching | done | panicked => cases does
  | _ => cases does; exact .refl

/-- What of a step is not the memory it leaves. -/
def Effect.course {π : Type} (eff : Effect π) :
    π × LockOp EntryPtr × Option TaskAt × Option Event :=
  (eff.pc, eff.op, eff.task, eff.shown)

/-- Memories that agree where a step reads. -/
def AgreeFor (access : Option (Place × Mode)) (e e' : Engine) : Prop :=
  ∀ place, access = some (place, .read) → Agree e e' place

theorem StartPc.step_reads {c : CallId} {e e' : Engine} {pc : StartPc}
    (agree : AgreeFor pc.access e e') :
    (pc.step c e').map Effect.course = (pc.step c e).map Effect.course := by
  cases pc with
  | locked intent =>
    have hmap : e'.auctions = e.auctions := agree .auctions rfl
    simp only [step, hmap]
    split <;> rfl
  | _ => rfl

theorem BidPc.step_reads {c : CallId} {e e' : Engine} {pc : BidPc}
    (agree : AgreeFor pc.access e e') :
    (pc.step c e').map Effect.course = (pc.step c e).map Effect.course := by
  cases pc with
  | rlocked bid =>
    have hmap : e'.auctions = e.auctions := agree .auctions rfl
    simp only [step, hmap]
    split <;> rfl
  | holding bid p =>
    have hbids : bidsOf e' p = bidsOf e p := agree (.bids p) rfl
    simp only [step, hbids]
    split <;> rfl
  | entered bid =>
    simp only [step]
    split <;> rfl
  | read bid p => cases p <;> rfl
  | _ => rfl

theorem TaskPc.step_reads {g : CallId} {intent : Ref Intent} {e e' : Engine} {pc : TaskPc}
    (agree : AgreeFor pc.access e e') (chan : e'.voucherCh = e.voucherCh) :
    (pc.step g intent e').map Effect.course = (pc.step g intent e).map Effect.course := by
  cases pc with
  | rlocked =>
    have hmap : e'.auctions = e.auctions := agree .auctions rfl
    simp only [step, hmap]
    rfl
  | holding p =>
    have hbids : bidsOf e' p = bidsOf e p := agree (.bids p) rfl
    simp only [step, hbids]
    split <;> rfl
  | located p => cases p <;> rfl
  | comparing p seen winner rest => cases rest <;> rfl
  | chosen winner =>
    cases winner with
    | none => rfl
    | some winner =>
      simp only [step, chan]
      split <;> rfl
  | _ => rfl

/-! ## No races -/

/-- The use of the locks that an access calls for. -/
def Permits : Place × Mode → LockUse EntryPtr → Prop
  | (.auctions, .read), u => u = .reading ∨ u = .writing
  | (.auctions, .write), u => u = .writing
  | (.bids p, _), u => u = .holding p

theorem StartPc.access_permitted {pc : StartPc} {a : Place × Mode} (h : pc.access = some a) :
    Permits a pc.use := by
  cases pc <;> cases h
  · exact .inr rfl
  · rfl

theorem BidPc.access_permitted {pc : BidPc} {a : Place × Mode} (h : pc.access = some a) :
    Permits a pc.use := by
  cases pc <;> cases h
  · exact .inl rfl
  · rfl
  · rfl

theorem TaskPc.access_permitted {pc : TaskPc} {a : Place × Mode} (h : pc.access = some a) :
    Permits a pc.use := by
  cases pc with
  | rlocked => cases h; exact .inl rfl
  | holding p => cases h; rfl
  | comparing p seen winner rest =>
    cases rest with
    | nil => cases h
    | cons bid rest => cases h; rfl
  | locked => cases h; rfl
  | _ => cases h

/-- Every access is made inside the lock that guards the place. -/
theorem State.access_permitted {s : State} {t : Thread} {a : Place × Mode}
    (h : s.access t = some a) : Permits a (s.use t) := by
  cases t with
  | start c =>
    obtain ⟨pc, call, hpc⟩ := Option.bind_eq_some_iff.mp h
    rw [use_start call]
    exact StartPc.access_permitted hpc
  | bid c =>
    obtain ⟨pc, call, hpc⟩ := Option.bind_eq_some_iff.mp h
    rw [use_bid call]
    exact BidPc.access_permitted hpc
  | task g =>
    obtain ⟨task, at_, hpc⟩ := Option.bind_eq_some_iff.mp h
    rw [use_task at_]
    exact TaskPc.access_permitted hpc

/-- Whoever accesses the map is inside `Engine.mu`, and as its writer unless it only reads. -/
theorem permits_inside {m : Mode} {u : LockUse EntryPtr} (permits : Permits (.auctions, m) u) :
    u = .writing ∨ u = .reading := by
  cases m with
  | read => exact Or.symm permits
  | write => exact .inl permits

@[inherit_doc permits_inside]
theorem mode_of_reading {m : Mode} {u : LockUse EntryPtr} (permits : Permits (.auctions, m) u)
    (reads : u = .reading) : m = .read := by
  cases m with
  | read => rfl
  | write =>
    have hwrites : u = .writing := permits
    rw [reads] at hwrites
    cases hwrites

/-- **No data race**: in every state of every run, two threads that are about to access the same
place are both about to read it. -/
theorem race_free {cap : Nat} {tr : List Event} {s : State} (run : system.Path (.init cap) tr s)
    {t u : Thread} {place : Place} {m m' : Mode} (apart : t ≠ u)
    (first : s.access t = some (place, m)) (second : s.access u = some (place, m')) :
    m = .read ∧ m' = .read := by
  have hused := (inv run).used
  have ht := State.access_permitted first
  have hu := State.access_permitted second
  cases place with
  | bids p => exact absurd (hused.sole ht hu) apart
  | auctions =>
    -- both are inside `Engine.mu`, so neither is its writer
    obtain ⟨hreads, hreads'⟩ := hused.both_reading apart (permits_inside ht) (permits_inside hu)
    exact ⟨mode_of_reading ht hreads, mode_of_reading hu hreads'⟩

namespace Sample

open VynxRelayer.Sample

/-- An auction is started and its timer fires; a bid comes in. The goroutine and the call that
submits the bid are both inside the read lock. -/
def readers : List Action :=
  .invokeStart 0 intent :: List.replicate 7 (.step (.start 0)) ++
    (.invokeBid 1 low :: List.replicate 2 (.step (.bid 1)) ++ List.replicate 2 (.step (.task 0)))

def twoReaders : List Event :=
  [.startInvoked 0 intent, .registered 0 intent, .startReturned 0 none, .bidInvoked 1 low]

/-- The state the schedule ends in has both of them about to read the map. -/
theorem played_readers : ∃ s, system.run (.init 1) readers = some (s, twoReaders) ∧
    s.access (.bid 1) = some (.auctions, .read) ∧ s.access (.task 0) = some (.auctions, .read) :=
  ⟨_, rfl, rfl, rfl⟩

end Sample

/-- Two readers at once: then no thread is about to write the map. -/
theorem race_free_readers :
    ∃ s, system.Path (.init 1) Sample.twoReaders s ∧
      s.access (.bid 1) = some (.auctions, .read) ∧ s.access (.task 0) = some (.auctions, .read) ∧
      ∀ t, s.access t ≠ some (.auctions, .write) := by
  obtain ⟨s, hrun, hbid, htask⟩ := Sample.played_readers
  have hpath := System.path_of_run hrun
  refine ⟨s, hpath, hbid, htask, ?_⟩
  intro t hwrite
  by_cases apart : .bid 1 = t
  · rw [← apart, hbid] at hwrite
    cases hwrite
  · obtain ⟨_, hread⟩ := race_free hpath apart hbid hwrite
    cases hread

/-! ## No deadlocks -/

/-- What a thread asks of the locks next. -/
def State.asks (s : State) : Thread → Option (LockOp EntryPtr)
  | .start c => (s.starts c).bind fun pc => (pc.step c s.engine).map Effect.op
  | .bid c => (s.bids c).bind fun pc => (pc.step c s.engine).map Effect.op
  | .task g => (s.tasks g).bind fun task => (task.pc.step g task.intent s.engine).map Effect.op

/-- The thread can move. -/
def State.enabled (s : State) (t : Thread) : Bool := (next s (.step t)).isSome

/-- The thread has begun and is not at its end. -/
def State.unfinished (s : State) : Thread → Bool
  | .start c =>
    match s.starts c with
    | none => false
    | some .returned => false
    | some _ => true
  | .bid c =>
    match s.bids c with
    | none => false
    | some .returned => false
    | some _ => true
  | .task g =>
    match s.tasks g with
    | none => false
    | some ⟨_, .launching⟩ => false
    | some ⟨_, .done⟩ => false
    | some _ => true

/-- A thread that is granted what it asks for can move. -/
theorem enabled_of_granted {s : State} {t : Thread} {op : LockOp EntryPtr}
    {locks : Locks Thread EntryPtr} (asks : s.asks t = some op)
    (granted : s.locks.apply t op = some locks) : s.enabled t = true := by
  cases t with
  | start c =>
    obtain ⟨pc, call, hmap⟩ := Option.bind_eq_some_iff.mp asks
    obtain ⟨eff, does, rfl⟩ := Option.map_eq_some_iff.mp hmap
    simp only [State.enabled, next, call, does, granted, Option.map_some, Option.isSome_some]
  | bid c =>
    obtain ⟨pc, call, hmap⟩ := Option.bind_eq_some_iff.mp asks
    obtain ⟨eff, does, rfl⟩ := Option.map_eq_some_iff.mp hmap
    simp only [State.enabled, next, call, does, granted, Option.map_some, Option.isSome_some]
  | task g =>
    obtain ⟨task, at_, hmap⟩ := Option.bind_eq_some_iff.mp asks
    obtain ⟨eff, does, rfl⟩ := Option.map_eq_some_iff.mp hmap
    simp only [State.enabled, next, at_, does, granted, Option.map_some, Option.isSome_some]

/-- What a thread asks for is within the discipline. -/
theorem asks_moves {s : State} {t : Thread} {op : LockOp EntryPtr} (asks : s.asks t = some op) :
    ∃ b, op.Moves (s.use t) b := by
  cases t with
  | start c =>
    obtain ⟨pc, call, hmap⟩ := Option.bind_eq_some_iff.mp asks
    obtain ⟨eff, does, rfl⟩ := Option.map_eq_some_iff.mp hmap
    rw [State.use_start call]
    exact ⟨_, StartPc.step_moves does⟩
  | bid c =>
    obtain ⟨pc, call, hmap⟩ := Option.bind_eq_some_iff.mp asks
    obtain ⟨eff, does, rfl⟩ := Option.map_eq_some_iff.mp hmap
    rw [State.use_bid call]
    exact ⟨_, BidPc.step_moves does⟩
  | task g =>
    obtain ⟨task, at_, hmap⟩ := Option.bind_eq_some_iff.mp asks
    obtain ⟨eff, does, rfl⟩ := Option.map_eq_some_iff.mp hmap
    rw [State.use_task at_]
    exact ⟨_, TaskPc.step_moves does⟩

/-- The entry that a call or a goroutine is at is on the heap. -/
theorem Inv.bids_held {s : State} (h : Inv s) {c : CallId} {bid : Bid} {p : EntryPtr}
    (call : s.bids c = some (.holding bid p)) : ∃ seen, bidsOf s.engine p = some seen := by
  obtain ⟨_, entry, hentry, _⟩ := h.consistent.held c bid p (abstract_bid call)
  have hentry' : s.engine.entries p = some entry := hentry
  exact ⟨entry.bids, by simp only [bidsOf, hentry', Option.map_some]⟩

@[inherit_doc Inv.bids_held]
theorem Inv.bids_own {s : State} (h : Inv s) {g : CallId} {intent : Ref Intent} {p : EntryPtr}
    (at_ : s.tasks g = some ⟨intent, .holding p⟩) : ∃ seen, bidsOf s.engine p = some seen := by
  have habs := abstract_task at_
  cases h.consistent.own g intent (some p) habs
  obtain ⟨entry, hentry, _⟩ := h.consistent.object g _ habs
  have hentry' : s.engine.entries g = some entry := hentry
  exact ⟨entry.bids, by simp only [bidsOf, hentry', Option.map_some]⟩

/-- A thread that is not at its end has a next step. -/
theorem Inv.asks_of_unfinished {s : State} (h : Inv s) {t : Thread}
    (unfinished : s.unfinished t = true) : ∃ op, s.asks t = some op := by
  cases t with
  | start c =>
    cases call : s.starts c with
    | none => simp [State.unfinished, call] at unfinished
    | some pc =>
      simp only [State.asks, call, Option.bind_some]
      cases pc with
      | returned => simp [State.unfinished, call] at unfinished
      | locked intent =>
        simp only [StartPc.step]
        split <;> exact ⟨_, rfl⟩
      | _ => exact ⟨_, rfl⟩
  | bid c =>
    cases call : s.bids c with
    | none => simp [State.unfinished, call] at unfinished
    | some pc =>
      simp only [State.asks, call, Option.bind_some]
      cases pc with
      | returned => simp [State.unfinished, call] at unfinished
      | entered bid | rlocked bid =>
        simp only [BidPc.step]
        split <;> exact ⟨_, rfl⟩
      | read bid p => cases p <;> exact ⟨_, rfl⟩
      | holding bid p =>
        obtain ⟨seen, hseen⟩ := h.bids_held call
        simp only [BidPc.step, hseen]
        exact ⟨_, rfl⟩
      | _ => exact ⟨_, rfl⟩
  | task g =>
    cases at_ : s.tasks g with
    | none => simp [State.unfinished, at_] at unfinished
    | some task =>
      obtain ⟨intent, pc⟩ := task
      simp only [State.asks, at_, Option.bind_some]
      cases pc with
      | launching | done => simp [State.unfinished, at_] at unfinished
      | panicked => exact absurd rfl (h.consistent.sound g _ (abstract_task at_))
      | located p => cases p <;> exact ⟨_, rfl⟩
      | holding p =>
        obtain ⟨seen, hseen⟩ := h.bids_own at_
        simp only [TaskPc.step, hseen]
        exact ⟨_, rfl⟩
      | comparing p seen winner rest => cases rest <;> exact ⟨_, rfl⟩
      | chosen winner =>
        cases winner with
        | none => exact ⟨_, rfl⟩
        | some winner =>
          simp only [TaskPc.step]
          split <;> exact ⟨_, rfl⟩
      | _ => exact ⟨_, rfl⟩

/-- A thread that uses a lock is not at its end. -/
theorem unfinished_of_use {s : State} {t : Thread} (uses : s.use t ≠ .free) :
    s.unfinished t = true := by
  cases t with
  | start c =>
    cases call : s.starts c with
    | none => simp [State.use, call] at uses
    | some pc =>
      rw [State.use_start call] at uses
      simp only [State.unfinished, call]
      cases pc <;> first | rfl | exact absurd rfl uses
  | bid c =>
    cases call : s.bids c with
    | none => simp [State.use, call] at uses
    | some pc =>
      rw [State.use_bid call] at uses
      simp only [State.unfinished, call]
      cases pc <;> first | rfl | exact absurd rfl uses
  | task g =>
    cases at_ : s.tasks g with
    | none => simp [State.use, at_] at uses
    | some task =>
      obtain ⟨intent, pc⟩ := task
      rw [State.use_task at_] at uses
      simp only [State.unfinished, at_]
      cases pc <;> first | rfl | exact absurd rfl uses

/-- A thread that uses a lock has a next step. -/
theorem Inv.busy {s : State} (h : Inv s) (t : Thread) (uses : s.use t ≠ .free) :
    ∃ op, s.asks t = some op :=
  h.asks_of_unfinished (unfinished_of_use uses)

/-- **Nobody is stuck.** -/
structure NeverStuck (s : State) : Prop where
  /-- Inside a lock, a thread can always move. -/
  inside : ∀ t, (s.use t).inside = true → s.enabled t = true
  /-- A thread that is not at its end can move, or another one can that is in its way: inside a lock,
  or announced as a writer. -/
  waiting : ∀ t, s.unfinished t = true → s.enabled t = true ∨
    ∃ u, u ≠ t ∧ s.enabled u = true ∧ ((s.use u).inside = true ∨ s.use u = .announced)

/-- **No deadlock**, in any state of any run. -/
theorem never_stuck {cap : Nat} {tr : List Event} {s : State}
    (run : system.Path (.init cap) tr s) : NeverStuck s where
  inside t hinside := by
    have henabled := Locks.enabled_of_inside (inv run).busy (fun _ _ => asks_moves)
      (fun _ _ _ => enabled_of_granted) hinside
    exact henabled
  waiting t unfinished := by
    obtain ⟨op, hasks⟩ := (inv run).asks_of_unfinished unfinished
    exact (inv run).used.enabled_or_waits (inv run).busy (fun _ _ => asks_moves)
      (fun _ _ _ => enabled_of_granted) hasks

/-- A second call of `StartAuction` has announced itself, and waits for the two readers. -/
theorem never_stuck_announced :
    ∃ s, system.Path (.init 1) (Sample.twoReaders ++ [.startInvoked 2 VynxRelayer.Sample.intent]) s ∧
      s.use (.start 2) = .announced ∧ s.enabled (.start 2) = false ∧ NeverStuck s := by
  have hrun : ∃ s, system.run (.init 1)
      (Sample.readers ++ [.invokeStart 2 VynxRelayer.Sample.intent, .step (.start 2)]) =
        some (s, Sample.twoReaders ++ [.startInvoked 2 VynxRelayer.Sample.intent]) ∧
      s.use (.start 2) = .announced ∧ s.enabled (.start 2) = false :=
    ⟨_, rfl, rfl, rfl⟩
  obtain ⟨s, hplayed, huse, hwaits⟩ := hrun
  have hpath := System.path_of_run hplayed
  exact ⟨s, hpath, huse, hwaits, never_stuck hpath⟩

end VynxRelayer.Auction.Locked
