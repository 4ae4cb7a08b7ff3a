import TetrisMint.FallibleRun

/-! The events of `event.c`, under every schedule of any number of threads: some store an answer
and mark the event complete, others block for it and then read the answer. -/
namespace TetrisMint

open FallibleRun

section Threads

variable {θ β : Type}

/-- Where a thread is in `ttetris_event_mark_complete` or `ttetris_event_block_for_completion`. -/
inductive Location (β : Type)
  /-- In neither of them. -/
  | away
  /-- Before mark_complete, where the answer is stored. -/
  | store (answer : β)
  | markLock
  | markState
  | markBroadcast
  | markUnlock
  | blockLock
  /-- At the condition of the loop. -/
  | blockTest
  /-- In pthread_cond_wait, which has released the mutex. -/
  | blockWait
  /-- Still in pthread_cond_wait, woken up and without the mutex. -/
  | blockWake
  | blockUnlock
  /-- Behind block_for_completion, where the answer is read. -/
  | read

inductive EventCall (β : Type)
  | mark (answer : β)
  | block

/-- A thread with the calls that are left to it and the answers that it has read. -/
structure EventThread (β : Type) where
  location : Location β
  calls : List (EventCall β)
  seen : List (Option β)

/-- An event, what it announces, and the threads that use it. -/
structure TetrisEvent (θ β : Type) where
  answer : Option β
  complete : Bool
  readyMutex : Option θ
  threads : θ → EventThread β

/-- The location holds the mutex. -/
def Location.holds : Location β → Bool
  | .markState | .markBroadcast | .markUnlock | .blockTest | .blockUnlock => true
  | _ => false

/-- The location is reached only when the event is complete. -/
def Location.late : Location β → Bool
  | .markBroadcast | .markUnlock | .blockUnlock | .read => true
  | _ => false

/-- The location is reached only when an answer is stored. -/
def Location.answered : Location β → Bool
  | .markLock | .markState => true
  | _ => false

def Location.waits : Location β → Bool
  | .blockWait => true
  | _ => false

/-- What pthread_cond_broadcast makes of a thread. -/
def EventThread.wake (th : EventThread β) : EventThread β :=
  { th with location := if th.location.waits then .blockWake else th.location }

/-- What the scheduler can do: let a thread take a step, or wake it up without a reason. -/
inductive Act (θ : Type)
  | run (t : θ)
  | wake (t : θ)

/-- `ttetris_event_create`. -/
def ttetrisEventCreate (calls : θ → List (EventCall β)) : TetrisEvent θ β :=
  ⟨none, false, none, fun t => ⟨.away, calls t, []⟩⟩

variable [DecidableEq θ]

namespace TetrisEvent

def setThread (e : TetrisEvent θ β) (t : θ) (th : EventThread β) : TetrisEvent θ β :=
  { e with threads := Function.update e.threads t th }

def goto (e : TetrisEvent θ β) (t : θ) (location : Location β) : TetrisEvent θ β :=
  e.setThread t { e.threads t with location := location }

/-- `pthread_mutex_lock`, which is not possible while the mutex is held. -/
def lock (e : TetrisEvent θ β) (t : θ) (location : Location β) : Except Unit (TetrisEvent θ β) :=
  match e.readyMutex with
  | some _ => .error ()
  | none => .ok ({ e with readyMutex := some t }.goto t location)

def unlock (e : TetrisEvent θ β) (t : θ) (location : Location β) : TetrisEvent θ β :=
  { e with readyMutex := none }.goto t location

/-- One step of a thread, an error where it has to wait or has nothing left to do. -/
def runThread (e : TetrisEvent θ β) (t : θ) : Except Unit (TetrisEvent θ β) :=
  let th := e.threads t
  match th.location with
  | .away =>
    match th.calls with
    | [] => .error ()
    | .mark answer :: calls => .ok (e.setThread t ⟨.store answer, calls, th.seen⟩)
    | .block :: calls => .ok (e.setThread t ⟨.blockLock, calls, th.seen⟩)
  | .store answer => .ok ({ e with answer := some answer }.goto t .markLock)
  | .markLock => e.lock t .markState
  | .markState => .ok ({ e with complete := true }.goto t .markBroadcast)
  | .markBroadcast => .ok ({ e with threads := fun u => (e.threads u).wake }.goto t .markUnlock)
  | .markUnlock => .ok (e.unlock t .away)
  | .blockLock => e.lock t .blockTest
  | .blockTest => .ok (if e.complete then e.goto t .blockUnlock else e.unlock t .blockWait)
  | .blockWait => .error ()
  | .blockWake => e.lock t .blockTest
  | .blockUnlock => .ok (e.unlock t .read)
  | .read => .ok (e.setThread t ⟨.away, th.calls, th.seen ++ [e.answer]⟩)

def step (e : TetrisEvent θ β) : Act θ → Except Unit (TetrisEvent θ β)
  | .run t => e.runThread t
  | .wake t => if (e.threads t).location.waits then .ok (e.goto t .blockWake) else .error ()

end TetrisEvent

/-- The calls of block_for_completion among these. -/
def blockCalls (calls : List (EventCall β)) : ℕ :=
  calls.countP fun
    | .block => true
    | .mark _ => false

/-- The location lies in a call of block_for_completion. -/
def Location.blocks : Location β → Bool
  | .blockLock | .blockTest | .blockWait | .blockWake | .blockUnlock | .read => true
  | _ => false

/-- What holds of each thread: `P` of the answers that it stores and has read, and it reads as many
as it had calls, `n`, that block. -/
structure ThreadInv (P : β → Prop) (n : ℕ) (answer : Option β) (complete : Bool) (th : EventThread β) :
    Prop where
  late : th.location.late = true → complete = true
  answered : th.location.answered = true → answer.isSome = true
  stores : ∀ a, th.location = .store a → P a
  marks : ∀ a, .mark a ∈ th.calls → P a
  seen : ∀ v ∈ th.seen, ∃ a, v = some a ∧ P a
  count : th.seen.length + th.location.blocks.toNat + blockCalls th.calls = n

structure EventInv (P : β → Prop) (n : θ → ℕ) (e : TetrisEvent θ β) : Prop where
  threads : ∀ u, ThreadInv P (n u) e.answer e.complete (e.threads u)
  mutex : ∀ u, (e.threads u).location.holds = true ↔ e.readyMutex = some u
  /-- Whoever waits for a complete event is about to be woken up. -/
  waiting : e.complete = true → ∀ u, (e.threads u).location.waits = true →
    ∃ m, (e.threads m).location = .markBroadcast
  stored : e.complete = true → e.answer.isSome = true
  answer : ∀ a, e.answer = some a → P a

section Invariant

variable {P : β → Prop} {n : θ → ℕ} {e : TetrisEvent θ β}

/-- What is stored and what is complete stays so. -/
theorem ThreadInv.mono {m : ℕ} {answer answer' : Option β} {complete complete' : Bool} {th : EventThread β}
    (h : ThreadInv P m answer complete th) (hanswer : answer.isSome = true → answer'.isSome = true)
    (hcomplete : complete = true → complete' = true) : ThreadInv P m answer' complete' th :=
  ⟨fun hl => hcomplete (h.late hl), fun ha => hanswer (h.answered ha), h.stores, h.marks, h.seen, h.count⟩

/-- A thread that goes on within its call. -/
theorem ThreadInv.goto {m : ℕ} {answer : Option β} {complete : Bool} {th : EventThread β}
    (h : ThreadInv P m answer complete th) {location : Location β}
    (hlate : location.late = true → complete = true)
    (hanswered : location.answered = true → answer.isSome = true) (hstores : ∀ a, location ≠ .store a)
    (hblocks : location.blocks = th.location.blocks) :
    ThreadInv P m answer complete { th with location := location } :=
  ⟨hlate, hanswered, fun a ha => absurd ha (hstores a), h.marks, h.seen, by rw [hblocks]; exact h.count⟩

/-- The rule for a step that moves one thread. -/
theorem EventInv.move (hi : EventInv P n e) (e' : TetrisEvent θ β) (t : θ) (th : EventThread β)
    (hthreads : e'.threads = Function.update e.threads t th)
    (hthread : ThreadInv P (n t) e'.answer e'.complete th)
    (hcomplete : e.complete = true → e'.complete = true)
    (hanswer : e.answer.isSome = true → e'.answer.isSome = true)
    (hstored : e'.complete = true → e'.answer.isSome = true) (hP : ∀ a, e'.answer = some a → P a)
    (hmutex : th.location.holds = true ↔ e'.readyMutex = some t)
    (hothers : ∀ u, u ≠ t → (e'.readyMutex = some u ↔ e.readyMutex = some u))
    (hwaits : e'.complete = true → th.location = .markBroadcast ∨ th.location.waits = false ∧
      ((∀ u, (e.threads u).location.waits = false) ∨
        e.complete = true ∧ (e.threads t).location ≠ .markBroadcast)) :
    EventInv P n e' where
  threads := by
    rw [hthreads]
    intro u
    by_cases hu : u = t
    · subst hu
      rwa [Function.update_self]
    · rw [Function.update_of_ne hu]
      exact (hi.threads u).mono hanswer hcomplete
  mutex := by
    rw [hthreads]
    intro u
    by_cases hu : u = t
    · subst hu
      rwa [Function.update_self]
    · rw [Function.update_of_ne hu, hothers u hu]
      exact hi.mutex u
  waiting := by
    rw [hthreads]
    intro hc u hu
    -- either the moving thread is the one about to broadcast, or whoever was before still is
    rcases hwaits hc with hth | ⟨hnot, hrest⟩
    · exact ⟨t, by rw [Function.update_self, hth]⟩
    · have hut : u ≠ t := by
        rintro rfl
        rw [Function.update_self, hnot] at hu
        exact absurd hu (by simp)
      rw [Function.update_of_ne hut] at hu
      rcases hrest with hnobody | ⟨hbefore, hold⟩
      · exact absurd (hu.symm.trans (hnobody u)) (by simp)
      · obtain ⟨m, hm⟩ := hi.waiting hbefore u hu
        have hmt : m ≠ t := fun hmt => hold (hmt ▸ hm)
        exact ⟨m, by rw [Function.update_of_ne hmt, hm]⟩
  stored := hstored
  answer := hP

/-- A thread that moves without the mutex being taken or given back. -/
theorem EventInv.setThread (hi : EventInv P n e) (t : θ) {th : EventThread β}
    (hthread : ThreadInv P (n t) e.answer e.complete th)
    (hholds : th.location.holds = (e.threads t).location.holds) (hwaits : th.location.waits = false)
    (hold : (e.threads t).location ≠ .markBroadcast) : EventInv P n (e.setThread t th) := by
  refine hi.move _ t th rfl hthread id id hi.stored hi.answer ?_ ?_ ?_
  · rw [hholds]
    exact hi.mutex t
  · exact fun _ _ => Iff.rfl
  · exact fun hc => Or.inr ⟨hwaits, Or.inr ⟨hc, hold⟩⟩

theorem EventInv.lock (hi : EventInv P n e) (t : θ) {location : Location β} {e' : TetrisEvent θ β}
    (h : e.lock t location = .ok e')
    (hthread : ThreadInv P (n t) e.answer e.complete { e.threads t with location := location })
    (hholds : location.holds = true) (hwaits : location.waits = false)
    (hold : (e.threads t).location ≠ .markBroadcast) : EventInv P n e' := by
  rw [TetrisEvent.lock] at h
  cases hfree : e.readyMutex with
  | some u =>
    rw [hfree] at h
    exact absurd h (by simp)
  | none =>
    rw [hfree, Except.ok.injEq] at h
    subst h
    refine hi.move _ t _ rfl hthread id id hi.stored hi.answer ?_ ?_ ?_
    · simp [hholds, TetrisEvent.goto, TetrisEvent.setThread]
    · intro u hu
      simp [hfree, TetrisEvent.goto, TetrisEvent.setThread, Ne.symm hu]
    · exact fun hc => Or.inr ⟨hwaits, Or.inr ⟨hc, hold⟩⟩

theorem EventInv.unlock (hi : EventInv P n e) (t : θ) {location : Location β}
    (hheld : (e.threads t).location.holds = true)
    (hthread : ThreadInv P (n t) e.answer e.complete { e.threads t with location := location })
    (hholds : location.holds = false)
    (hwaits : e.complete = true → location.waits = false)
    (hold : (e.threads t).location ≠ .markBroadcast) : EventInv P n (e.unlock t location) := by
  have hmine := (hi.mutex t).mp hheld
  refine hi.move _ t _ rfl hthread id id hi.stored hi.answer ?_ ?_ ?_
  · simp [hholds, TetrisEvent.unlock, TetrisEvent.goto, TetrisEvent.setThread]
  · intro u hu
    simp [hmine, TetrisEvent.unlock, TetrisEvent.goto, TetrisEvent.setThread, Ne.symm hu]
  · exact fun hc => Or.inr ⟨hwaits hc, Or.inr ⟨hc, hold⟩⟩

theorem EventThread.wake_waits (th : EventThread β) : th.wake.location.waits = false := by
  rw [wake]
  split_ifs with h
  · rfl
  · exact Bool.eq_false_of_not_eq_true h

theorem EventThread.wake_holds (th : EventThread β) : th.wake.location.holds = th.location.holds := by
  rw [wake]
  split_ifs with h
  · cases hl : th.location with
    | blockWait => rfl
    | _ => exact absurd (hl ▸ h) (by simp [Location.waits])
  · rfl

/-- Whoever is woken up is still in its call. -/
theorem ThreadInv.wake {m : ℕ} {answer : Option β} {complete : Bool} {th : EventThread β}
    (h : ThreadInv P m answer complete th) : ThreadInv P m answer complete th.wake := by
  rw [EventThread.wake]
  split_ifs with hwaits
  · apply h.goto (by simp [Location.late]) (by simp [Location.answered]) (by simp)
    cases hl : th.location with
    | blockWait => rfl
    | _ => exact absurd (hl ▸ hwaits) (by simp [Location.waits])
  · exact h

omit [DecidableEq θ] in
/-- After the broadcast nobody waits. -/
theorem broadcast_inv (hi : EventInv P n e) :
    EventInv P n { e with threads := fun u => (e.threads u).wake } where
  threads := fun u => (hi.threads u).wake
  mutex := by
    intro u
    rw [EventThread.wake_holds]
    exact hi.mutex u
  waiting := by
    intro _ u hu
    rw [EventThread.wake_waits] at hu
    exact absurd hu (by simp)
  stored := hi.stored
  answer := hi.answer

/-- A thread that begins its next call. -/
theorem EventInv.begin (hi : EventInv P n e) (t : θ) {call : EventCall β} {calls : List (EventCall β)}
    {location : Location β} (hl : (e.threads t).location = .away)
    (hcalls : (e.threads t).calls = call :: calls) (hlate : location.late = false)
    (hanswered : location.answered = false) (hholds : location.holds = false)
    (hwaits : location.waits = false) (hstores : ∀ a, location = .store a → call = .mark a)
    (hblocks : location.blocks.toNat = blockCalls [call]) :
    EventInv P n (e.setThread t ⟨location, calls, (e.threads t).seen⟩) := by
  have ht := hi.threads t
  have hmarks := ht.marks
  have hcount := ht.count
  rw [hcalls] at hmarks
  rw [hl, hcalls, ← List.singleton_append, blockCalls, List.countP_append] at hcount
  apply hi.setThread t _ (by rw [hl, hholds]; rfl) hwaits (by simp [hl])
  refine ⟨by simp [hlate], by simp [hanswered], ?_, ?_, ht.seen, ?_⟩
  · intro a ha
    exact hmarks a (hstores a ha ▸ List.mem_cons_self ..)
  · exact fun a ha => hmarks a (List.mem_cons_of_mem _ ha)
  · -- the call leaves the list and is counted as the one the thread is in
    rw [hblocks, ← hcount, blockCalls, blockCalls]
    simp only [Location.blocks, Bool.toNat_false]
    omega

/-- Every step of a thread keeps the invariant. -/
theorem runThread_inv (hi : EventInv P n e) {t : θ} {e' : TetrisEvent θ β} (h : e.runThread t = .ok e') :
    EventInv P n e' := by
  have ht := hi.threads t
  rw [TetrisEvent.runThread] at h
  cases hl : (e.threads t).location with
  | away =>
    rw [hl] at h
    cases hcalls : (e.threads t).calls with
    | nil =>
      rw [hcalls] at h
      exact absurd h (by simp)
    | cons call calls =>
      rw [hcalls] at h
      cases call with
      | mark a =>
        rw [← Except.ok.inj h]
        apply hi.begin t hl hcalls rfl rfl rfl rfl ?_ rfl
        intro b hb
        rw [Location.store.inj hb]
      | block =>
        rw [← Except.ok.inj h]
        exact hi.begin t hl hcalls rfl rfl rfl rfl (by simp) rfl
  | store a =>
    rw [hl] at h
    rw [← Except.ok.inj h]
    -- the answer is written before the mutex is taken, perhaps over one that is there already
    have hstays : ThreadInv P (n t) (some a) e.complete { e.threads t with location := .markLock } :=
      (ht.mono (fun _ => rfl) id).goto (by simp [Location.late]) (fun _ => rfl) (by simp) (by rw [hl]; rfl)
    refine hi.move _ t _ rfl hstays id (fun _ => rfl) (fun _ => rfl) ?_ ?_ (fun _ _ => Iff.rfl) ?_
    · intro b hb
      exact Option.some.inj hb ▸ ht.stores a hl
    · have hmutex := hi.mutex t
      rwa [hl] at hmutex
    · exact fun hc => Or.inr ⟨rfl, Or.inr ⟨hc, by simp [hl]⟩⟩
  | markLock =>
    rw [hl] at h
    have hanswered : e.answer.isSome = true := ht.answered (by rw [hl]; rfl)
    exact hi.lock t h (ht.goto (by simp [Location.late]) (fun _ => hanswered) (by simp) (by rw [hl]; rfl))
      rfl rfl (by simp [hl])
  | markState =>
    rw [hl] at h
    rw [← Except.ok.inj h]
    -- whoever waits now is woken by this thread, which goes on to its broadcast
    have hanswered : e.answer.isSome = true := ht.answered (by rw [hl]; rfl)
    have hstays : ThreadInv P (n t) e.answer true { e.threads t with location := .markBroadcast } :=
      (ht.mono id fun _ => rfl).goto (fun _ => rfl) (by simp [Location.answered]) (by simp) (by rw [hl]; rfl)
    refine hi.move _ t _ rfl hstays (fun _ => rfl) id (fun _ => hanswered) hi.answer ?_
      (fun _ _ => Iff.rfl) fun _ => Or.inl rfl
    have hmutex := hi.mutex t
    rwa [hl] at hmutex
  | markBroadcast =>
    rw [hl] at h
    rw [← Except.ok.inj h]
    have hb := broadcast_inv hi
    -- the thread itself does not wait, so the broadcast leaves it where it is
    have hsame : (e.threads t).wake.location = .markBroadcast := by
      rw [EventThread.wake, hl]
      rfl
    have hmutex := hb.mutex t
    have hcomplete : e.complete = true := ht.late (by rw [hl]; rfl)
    refine hb.move _ t _ rfl ?_ id id hi.stored hi.answer ?_ (fun _ _ => Iff.rfl) ?_
    · exact ht.wake.goto (fun _ => hcomplete) (by simp [Location.answered]) (by simp) (by rw [hsame]; rfl)
    · rwa [hsame] at hmutex
    · exact fun _ => Or.inr ⟨rfl, Or.inl fun u => (e.threads u).wake_waits⟩
  | markUnlock =>
    rw [hl] at h
    rw [← Except.ok.inj h]
    exact hi.unlock t (by rw [hl]; rfl) (ht.goto (by simp [Location.late]) (by simp [Location.answered])
      (by simp) (by rw [hl]; rfl)) rfl (fun _ => rfl) (by simp [hl])
  | blockLock =>
    rw [hl] at h
    exact hi.lock t h (ht.goto (by simp [Location.late]) (by simp [Location.answered]) (by simp)
      (by rw [hl]; rfl)) rfl rfl (by simp [hl])
  | blockTest =>
    rw [hl] at h
    rw [← Except.ok.inj h]
    split_ifs with hcomplete
    · apply hi.setThread t _ (by rw [hl]; rfl) rfl (by simp [hl])
      exact ht.goto (fun _ => hcomplete) (by simp [Location.answered]) (by simp) (by rw [hl]; rfl)
    · -- it goes to sleep on an event that is not complete, so nobody has to wake it yet
      exact hi.unlock t (by rw [hl]; rfl) (ht.goto (by simp [Location.late]) (by simp [Location.answered])
        (by simp) (by rw [hl]; rfl)) rfl (fun hc => absurd hc hcomplete) (by simp [hl])
  | blockWait =>
    rw [hl] at h
    exact absurd h (by simp)
  | blockWake =>
    rw [hl] at h
    exact hi.lock t h (ht.goto (by simp [Location.late]) (by simp [Location.answered]) (by simp)
      (by rw [hl]; rfl)) rfl rfl (by simp [hl])
  | blockUnlock =>
    rw [hl] at h
    rw [← Except.ok.inj h]
    have hcomplete : e.complete = true := ht.late (by rw [hl]; rfl)
    exact hi.unlock t (by rw [hl]; rfl) (ht.goto (fun _ => hcomplete) (by simp [Location.answered])
      (by simp) (by rw [hl]; rfl)) rfl (fun _ => rfl) (by simp [hl])
  | read =>
    rw [hl] at h
    rw [← Except.ok.inj h]
    have hcomplete : e.complete = true := ht.late (by rw [hl]; rfl)
    apply hi.setThread t _ (by rw [hl]; rfl) rfl (by simp [hl])
    have hcount := ht.count
    rw [hl] at hcount
    refine ⟨by simp [Location.late], by simp [Location.answered], by simp, ht.marks, ?_, ?_⟩
    · -- the event is complete, so an answer is stored
      obtain ⟨a, ha⟩ := Option.isSome_iff_exists.mp (hi.stored hcomplete)
      rw [List.forall_mem_append]
      refine ⟨ht.seen, ?_⟩
      intro v hv
      exact ⟨a, (List.mem_singleton.mp hv).trans ha, hi.answer a ha⟩
    · simpa [Location.blocks] using hcount

theorem event_step_inv (hi : EventInv P n e) {act : Act θ} {e' : TetrisEvent θ β} (h : e.step act = .ok e') :
    EventInv P n e' := by
  cases act with
  | run t => exact runThread_inv hi h
  | wake t =>
    rw [TetrisEvent.step] at h
    split_ifs at h with hwaits
    rw [← Except.ok.inj h]
    cases hl : (e.threads t).location with
    | blockWait =>
      apply hi.setThread t _ (by rw [hl]; rfl) rfl (by simp [hl])
      exact (hi.threads t).goto (by simp [Location.late]) (by simp [Location.answered]) (by simp)
        (by rw [hl]; rfl)
    | _ => exact absurd (hl ▸ hwaits) (by simp [Location.waits])

end Invariant

section Progress

variable {P : β → Prop} {n : θ → ℕ} {e e' : TetrisEvent θ β}

/-- The thread has made all its calls. -/
def EventThread.Through (th : EventThread β) : Prop := th.location = .away ∧ th.calls = []

/-- While somebody holds the mutex he can go on, and when nobody does, all who want it can. -/
theorem stuck_threads (hi : EventInv P n e) (hstuck : ∀ t, e.runThread t = .error ()) (t : θ) :
    (e.threads t).Through ∨ e.complete = false ∧ (e.threads t).location.waits = true := by
  have hnotHeld (u : θ) : (e.threads u).location.holds = false := by
    have hu := hstuck u
    rw [TetrisEvent.runThread] at hu
    cases hl : (e.threads u).location with
    | markState | markBroadcast | markUnlock | blockTest | blockUnlock =>
      rw [hl] at hu
      exact absurd hu (by simp)
    | _ => rfl
  have hfree : e.readyMutex = none := by
    cases howner : e.readyMutex with
    | none => rfl
    | some u =>
      have hheld := (hi.mutex u).mpr howner
      rw [hnotHeld u] at hheld
      exact absurd hheld (by simp)
  have ht := hstuck t
  have hidle := hnotHeld t
  rw [TetrisEvent.runThread] at ht
  cases hl : (e.threads t).location with
  | away =>
    rw [hl] at ht
    cases hcalls : (e.threads t).calls with
    | nil => exact Or.inl ⟨hl, hcalls⟩
    | cons call calls =>
      rw [hcalls] at ht
      cases call <;> exact absurd ht (by simp)
  | blockWait =>
    refine Or.inr ⟨?_, rfl⟩
    -- nobody who would wake him up could be stuck
    by_contra hcomplete
    obtain ⟨m, hm⟩ := hi.waiting (Bool.eq_true_of_not_eq_false hcomplete) t (by rw [hl]; rfl)
    have hheld := hnotHeld m
    rw [hm] at hheld
    exact absurd hheld (by simp [Location.holds])
  | store _ | read =>
    rw [hl] at ht
    exact absurd ht (by simp)
  | markLock | blockLock | blockWake =>
    rw [hl] at ht
    simp only [TetrisEvent.lock, hfree] at ht
    exact absurd ht (by simp)
  | _ =>
    rw [hl] at hidle
    exact absurd hidle (by simp [Location.holds])

/-- How many steps it is to the end of the call, once the event is complete. -/
def Location.rest : Location β → ℕ
  | .away => 0
  | .store _ | .blockWait => 5
  | .markLock | .blockLock | .blockWake => 4
  | .markState | .blockTest => 3
  | .markBroadcast | .blockUnlock => 2
  | .markUnlock | .read => 1

def EventThread.rest (th : EventThread β) : ℕ := th.location.rest + 6 * th.calls.length

theorem EventThread.wake_rest (th : EventThread β) : th.wake.rest ≤ th.rest := by
  rw [wake, rest, rest]
  split_ifs with h
  · cases hl : th.location with
    | blockWait => simp [Location.rest]
    | _ => exact absurd (hl ▸ h) (by simp [Location.waits])
  · exact le_rfl

/-- What one step takes off the way that is left: nobody's way gets longer, and somebody's shorter. -/
structure Closer (e e' : TetrisEvent θ β) : Prop where
  complete : e'.complete = true
  le : ∀ u, (e'.threads u).rest ≤ (e.threads u).rest
  lt : ∃ t, (e'.threads t).rest < (e.threads t).rest

theorem closer_of_update (hc : e'.complete = true) {threads : θ → EventThread β} (t : θ) {th : EventThread β}
    (hthreads : e'.threads = Function.update threads t th) (hle : ∀ u, (threads u).rest ≤ (e.threads u).rest)
    (hlt : th.rest < (e.threads t).rest) : Closer e e' where
  complete := hc
  le := by
    rw [hthreads]
    intro u
    by_cases hu : u = t
    · subst hu
      rw [Function.update_self]
      exact hlt.le
    · rw [Function.update_of_ne hu]
      exact hle u
  lt := ⟨t, by rwa [hthreads, Function.update_self]⟩

/-- On a complete event every step leads on: nobody goes to sleep any more. -/
theorem runThread_closer (hc : e.complete = true) {t : θ} (h : e.runThread t = .ok e') : Closer e e' := by
  have hrest : (e.threads t).rest = (e.threads t).location.rest + 6 * (e.threads t).calls.length := rfl
  have hlock (location : Location β) (hlt : location.rest < (e.threads t).location.rest)
      (hlock : e.lock t location = .ok e') : Closer e e' := by
    rw [TetrisEvent.lock] at hlock
    split at hlock
    · exact absurd hlock (by simp)
    · rw [← Except.ok.inj hlock]
      exact closer_of_update hc t rfl (fun _ => le_rfl) (by rw [hrest, EventThread.rest]; simpa using hlt)
  rw [TetrisEvent.runThread] at h
  cases hl : (e.threads t).location with
  | away =>
    rw [hl] at h hrest
    cases hcalls : (e.threads t).calls with
    | nil =>
      rw [hcalls] at h
      exact absurd h (by simp)
    | cons call calls =>
      rw [hcalls] at h hrest
      rw [List.length_cons] at hrest
      cases call with
      | mark a =>
        rw [← Except.ok.inj h]
        refine closer_of_update hc t rfl (fun _ => le_rfl) ?_
        rw [hrest, EventThread.rest]
        simp only [Location.rest]
        omega
      | block =>
        rw [← Except.ok.inj h]
        refine closer_of_update hc t rfl (fun _ => le_rfl) ?_
        rw [hrest, EventThread.rest]
        simp only [Location.rest]
        omega
  | markLock | blockLock | blockWake =>
    -- a mutex that is held makes no step, so there is nothing to count
    rw [hl] at h hlock
    exact hlock _ (by simp [Location.rest]) h
  | blockWait =>
    rw [hl] at h
    exact absurd h (by simp)
  | markBroadcast =>
    rw [hl] at h hrest
    rw [← Except.ok.inj h]
    refine closer_of_update hc t rfl (fun u => (e.threads u).wake_rest) ?_
    rw [hrest, EventThread.rest]
    simp [EventThread.wake, Location.rest]
  | blockTest =>
    -- the only branch that would lead back to sleep is closed
    rw [hl, if_pos hc] at h
    rw [hl] at hrest
    rw [← Except.ok.inj h]
    refine closer_of_update hc t rfl (fun _ => le_rfl) ?_
    rw [hrest, EventThread.rest]
    simp [Location.rest]
  | markState =>
    rw [hl] at h hrest
    rw [← Except.ok.inj h]
    refine closer_of_update rfl t rfl (fun _ => le_rfl) ?_
    rw [hrest, EventThread.rest]
    simp [Location.rest]
  | store _ | markUnlock | blockUnlock | read =>
    rw [hl] at h hrest
    rw [← Except.ok.inj h]
    refine closer_of_update hc t rfl (fun _ => le_rfl) ?_
    rw [hrest, EventThread.rest]
    simp [Location.rest]

theorem event_step_closer (hc : e.complete = true) {act : Act θ} (h : e.step act = .ok e') : Closer e e' := by
  cases act with
  | run t => exact runThread_closer hc h
  | wake t =>
    rw [TetrisEvent.step] at h
    split_ifs at h with hwaits
    rw [← Except.ok.inj h]
    refine closer_of_update hc t rfl (fun _ => le_rfl) ?_
    rw [EventThread.rest, EventThread.rest]
    cases hl : (e.threads t).location with
    | blockWait => simp [Location.rest]
    | _ => exact absurd (hl ▸ hwaits) (by simp [Location.waits])

variable [Fintype θ]

/-- The steps that are left at most when the event is complete. -/
def TetrisEvent.rest (e : TetrisEvent θ β) : ℕ := ∑ t, (e.threads t).rest

omit [DecidableEq θ] in
theorem Closer.rest_lt (h : Closer e e') : e'.rest < e.rest := by
  obtain ⟨t, ht⟩ := h.lt
  exact Finset.sum_lt_sum (fun u _ => h.le u) ⟨t, Finset.mem_univ t, ht⟩

/-- Whatever the scheduler does, it cannot go on for longer than that. -/
theorem event_run_bounded (hc : e.complete = true) {acts : List (Act θ)}
    (h : run TetrisEvent.step e acts = .ok e') : acts.length + e'.rest ≤ e.rest := by
  induction acts generalizing e with
  | nil => rw [Except.ok.inj h, List.length_nil, Nat.zero_add]
  | cons act acts ih =>
    obtain ⟨u, hu, hrest⟩ := (run_cons_eq_ok _).mp h
    have hcloser := event_step_closer hc hu
    have hlater := ih hcloser.complete hrest
    have hlt := hcloser.rest_lt
    rw [List.length_cons]
    omega

end Progress

section Schedules

variable (calls : θ → List (EventCall β)) {e : TetrisEvent θ β} {acts : List (Act θ)}

/-- The answers that the threads have to store. -/
def Stored (a : β) : Prop := ∃ u, EventCall.mark a ∈ calls u

omit [DecidableEq θ] in
theorem event_create_inv :
    EventInv (Stored calls) (fun t => blockCalls (calls t)) (ttetrisEventCreate calls) where
  threads := by
    intro u
    refine ⟨by simp [ttetrisEventCreate, Location.late], by simp [ttetrisEventCreate, Location.answered],
      by simp [ttetrisEventCreate], fun a ha => ⟨u, ha⟩, by simp [ttetrisEventCreate], ?_⟩
    simp [ttetrisEventCreate, Location.blocks]
  mutex := by simp [ttetrisEventCreate, Location.holds]
  waiting := by simp [ttetrisEventCreate]
  stored := by simp [ttetrisEventCreate]
  answer := by simp [ttetrisEventCreate]

theorem event_inv (hrun : run TetrisEvent.step (ttetrisEventCreate calls) acts = .ok e) :
    EventInv (Stored calls) (fun t => blockCalls (calls t)) e :=
  invariant_run TetrisEvent.step (fun _ _ _ hi h => event_step_inv hi h) (event_create_inv calls) hrun

/-- No call of block_for_completion returns too early, and none is left behind. Under every
schedule, with spurious wake-ups: at most one thread holds the mutex; whoever has come back from
block_for_completion has read an answer that was stored for the event; where no thread can go on,
all are through, or the event is not complete and those who are not through wait for it; once the
event is complete the threads can only take a bounded number of steps, and when no more are possible
every thread has made all its calls and has read an answer for each that blocks. -/
theorem event_wakes_everybody [Fintype θ]
    (hrun : run TetrisEvent.step (ttetrisEventCreate calls) acts = .ok e) :
    (∀ t u, (e.threads t).location.holds = true → (e.threads u).location.holds = true → t = u) ∧
    (∀ t, ∀ v ∈ (e.threads t).seen, ∃ a, v = some a ∧ Stored calls a) ∧
    ((∀ t, e.runThread t = .error ()) →
      ∀ t, (e.threads t).Through ∨ e.complete = false ∧ (e.threads t).location.waits = true) ∧
    (e.complete = true → ∀ later e', run TetrisEvent.step e later = .ok e' →
      later.length ≤ e.rest ∧ ((∀ t, e'.runThread t = .error ()) →
        ∀ t, (e'.threads t).Through ∧ (e'.threads t).seen.length = blockCalls (calls t))) := by
  have hi := event_inv calls hrun
  refine ⟨?_, fun t => (hi.threads t).seen, stuck_threads hi, ?_⟩
  · intro t u ht hu
    have howner := (hi.mutex t).mp ht
    rw [(hi.mutex u).mp hu, Option.some.injEq] at howner
    exact howner.symm
  · intro hc later e' hlater
    refine ⟨le_trans (Nat.le_add_right _ _) (event_run_bounded hc hlater), ?_⟩
    intro hstuck t
    have hi' : EventInv (Stored calls) (fun t => blockCalls (calls t)) e' :=
      invariant_run TetrisEvent.step (fun _ _ _ hi h => event_step_inv hi h) hi hlater
    -- nobody takes the completion back
    have hc' : e'.complete = true :=
      @invariant_run _ _ _ TetrisEvent.step (fun u => u.complete = true)
        (fun _ _ _ hu h => (event_step_closer hu h).complete) e e' later hc hlater
    have hthrough : (e'.threads t).Through := by
      rcases stuck_threads hi' hstuck t with hthrough | ⟨hopen, -⟩
      · exact hthrough
      · exact absurd (hc'.symm.trans hopen) (by simp)
    have hcount := (hi'.threads t).count
    rw [hthrough.1, hthrough.2] at hcount
    exact ⟨hthrough, by simpa [Location.blocks, blockCalls] using hcount⟩

end Schedules

end Threads

/-- One thread blocks until it sleeps, is woken up for nothing and sleeps again; the other one stores
the answer 7 and marks the event complete, and the first one comes back. -/
def sleepyReader : List (Act Bool) :=
  [.run true, .run true, .run true, .wake true, .run true, .run true] ++
    List.replicate 6 (.run false) ++ List.replicate 4 (.run true)

theorem event_wakes_everybody_sleepy_reader : ∃ e : TetrisEvent Bool ℕ,
    run TetrisEvent.step (ttetrisEventCreate fun t => if t then [.block] else [.mark 7]) sleepyReader =
        .ok e ∧
      ∀ t, (e.threads t).Through ∧ (e.threads t).seen.length = t.toNat := by
  obtain ⟨e, hrun, hfacts⟩ : ∃ e : TetrisEvent Bool ℕ,
      run TetrisEvent.step (ttetrisEventCreate fun t => if t then [.block] else [.mark 7]) sleepyReader =
          .ok e ∧
        (e.complete, (e.runThread true).isOk, (e.runThread false).isOk) = (true, false, false) := by
    apply exists_ok_of_map fun e =>
      (e.complete, (TetrisEvent.runThread e true).isOk, (TetrisEvent.runThread e false).isOk)
    decide
  obtain ⟨hcomplete, hstuck⟩ := Prod.mk.inj hfacts
  obtain ⟨htrue, hfalse⟩ := Prod.mk.inj hstuck
  have herror (t : Bool) : e.runThread t = .error () := by
    have ht : (e.runThread t).isOk = false := by
      cases t
      · exact hfalse
      · exact htrue
    cases hstep : e.runThread t with
    | error u => rfl
    | ok e' =>
      rw [hstep] at ht
      exact absurd ht (by simp [Except.isOk, Except.toBool])
  obtain ⟨-, -, -, hbounded⟩ := event_wakes_everybody _ hrun
  refine ⟨e, hrun, fun t => ?_⟩
  obtain ⟨hthrough, hcount⟩ := (hbounded hcomplete [] e rfl).2 herror t
  refine ⟨hthrough, ?_⟩
  rw [hcount]
  cases t <;> rfl

end TetrisMint
