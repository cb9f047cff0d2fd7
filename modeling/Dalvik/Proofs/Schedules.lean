import Mathlib
import Dalvik.Batch

/-!
# Batches under every schedule

A batch as a system of steps. A dispatcher takes the methods in order: it announces each one in its
result slot and then either sees that the run was cancelled or takes one of the slots of a
semaphore and starts a worker. A worker looks at the cancellation once more, analyses its method,
writes its own result slot and gives the semaphore slot back. Cancellation can come at any time,
and once it has come the dispatcher may still start workers. Every access to what the threads share
is a step of its own, and the steps of all threads interleave freely.

Whatever the schedule, no more analyses are in flight than the semaphore has slots, and a run that
has ended holds the results of `Batch.run`, refused being the methods whose worker had not passed
its look at the cancellation when that came.
-/

namespace Dalvik
namespace Batch

/-! ## The system -/

/-- Where a run has got to with one of its methods. The first three phases belong to the
dispatcher, the next four to the worker of the method. -/
inductive Phase where
  | waiting
  | announced
  | turnedAway
  | spawned
  | analysing
  | stopping
  | returning
  | finished
  deriving DecidableEq

namespace Phase

/-- The dispatcher is done with the method. -/
def dispatched : Phase → Bool
  | waiting | announced | turnedAway => false
  | spawned | analysing | stopping | returning | finished => true

/-- A worker has a slot of the semaphore for the method. -/
def holds : Phase → Bool
  | spawned | analysing | stopping | returning => true
  | waiting | announced | turnedAway | finished => false

/-- Before any cancellation: the worker has passed its look at it. -/
def passed : Phase → Bool
  | analysing | returning | finished => true
  | waiting | announced | turnedAway | spawned | stopping => false

/-- A bound on the steps that are still to come. -/
def rank : Phase → ℕ
  | waiting => 6
  | announced => 5
  | spawned => 4
  | analysing | stopping => 2
  | turnedAway | returning => 1
  | finished => 0

end Phase

/-- The error in a result slot. -/
inductive SlotError where
  | halted (h : Halt)
  | canceled
  deriving DecidableEq

/-- A result slot; all of it is empty to begin with. -/
structure Slot where
  method : Option Method := none
  analysis : Option Analysis := none
  error : Option SlotError := none
  deriving DecidableEq

namespace Slot

/-- What an analysis returns: a finding or an error. -/
def returned : Check Analysis → Option Analysis × Option SlotError
  | .ok a => (some a, none)
  | .error h => (none, some (.halted h))

/-- The slot with both parts of what an analysis returns written to it. -/
def record (slot : Slot) (result : Check Analysis) : Slot :=
  { slot with analysis := (returned result).1, error := (returned result).2 }

/-- The slot with the error of a cancelled run written to it. -/
def cancel (slot : Slot) : Slot := { slot with error := some .canceled }

/-- The slot that holds a result. -/
def of (r : MethodResult) : Slot :=
  match r.outcome with
  | .analysed v => record { method := some r.method } v.result
  | .canceled => cancel { method := some r.method }

end Slot

/-- A method of a run. -/
structure Job where
  phase : Phase
  slot : Slot

/-- What can happen next to the method `m`. -/
inductive Move (config : Config) (m : Method) (canceled : Bool) : Job → Job → Prop where
  /-- The dispatcher announces the method. -/
  | announce (slot : Slot) :
      Move config m canceled ⟨.waiting, slot⟩ ⟨.announced, { slot with method := some m }⟩
  /-- The dispatcher sees the cancellation. -/
  | observe (slot : Slot) (h : canceled = true) :
      Move config m canceled ⟨.announced, slot⟩ ⟨.turnedAway, slot⟩
  /-- The dispatcher writes the error of a cancelled run. -/
  | turnAway (slot : Slot) : Move config m canceled ⟨.turnedAway, slot⟩ ⟨.finished, slot.cancel⟩
  /-- The dispatcher takes a slot of the semaphore and starts a worker, cancelled or not. -/
  | spawn (slot : Slot) : Move config m canceled ⟨.announced, slot⟩ ⟨.spawned, slot⟩
  /-- The worker sees no cancellation. -/
  | pass (slot : Slot) (h : canceled = false) :
      Move config m canceled ⟨.spawned, slot⟩ ⟨.analysing, slot⟩
  /-- The worker sees the cancellation. -/
  | stop (slot : Slot) (h : canceled = true) :
      Move config m canceled ⟨.spawned, slot⟩ ⟨.stopping, slot⟩
  /-- The worker writes the error of a cancelled run. -/
  | giveUp (slot : Slot) : Move config m canceled ⟨.stopping, slot⟩ ⟨.returning, slot.cancel⟩
  /-- The worker analyses the method and writes what it finds. -/
  | analyse (slot : Slot) :
      Move config m canceled ⟨.analysing, slot⟩
        ⟨.returning, slot.record (preAnalyze config m).result⟩
  /-- The worker gives its slot of the semaphore back. -/
  | release (slot : Slot) : Move config m canceled ⟨.returning, slot⟩ ⟨.finished, slot⟩

/-- The state of a run. -/
structure State where
  canceled : Bool
  /-- The method that the dispatcher has come to. -/
  next : ℕ
  /-- The slots of the semaphore that are taken. -/
  taken : ℕ
  jobs : List Job

namespace State

/-- The state in which a run begins. -/
def start (methods : List Method) : State := ⟨false, 0, 0, methods.map fun _ => ⟨.waiting, {}⟩⟩

/-- The result slots. -/
def results (s : State) : List Slot := s.jobs.map (·.slot)

/-- The number of methods that are being analysed. -/
def inFlight (s : State) : ℕ := s.jobs.countP (·.phase = .analysing)

/-- The worker of the method with the given index has passed its look at the cancellation. -/
def passed (s : State) (i : ℕ) : Bool := (s.jobs[i]?).any (·.phase.passed)

/-- The dispatcher and all workers have returned. -/
structure Final (methods : List Method) (s : State) : Prop where
  next_eq : s.next = methods.length
  finished : ∀ job ∈ s.jobs, job.phase = .finished

end State

/-- A step of a run on a semaphore with the given number of slots. -/
inductive Step (config : Config) (slots : ℕ+) (methods : List Method) : State → State → Prop where
  /-- The run is cancelled. -/
  | cancel {s : State} (h : s.canceled = false) :
      Step config slots methods s { s with canceled := true }
  /-- The dispatcher does something about the method it has come to. -/
  | dispatch {s : State} {m : Method} {job job' : Job} (hm : methods[s.next]? = some m)
      (hjob : s.jobs[s.next]? = some job) (hphase : job.phase.dispatched = false)
      (hmove : Move config m s.canceled job job') (hfree : job'.phase.holds = true → s.taken < slots) :
      Step config slots methods s
        { s with
          next := s.next + job'.phase.dispatched.toNat
          taken := s.taken + job'.phase.holds.toNat
          jobs := s.jobs.set s.next job' }
  /-- A worker does something about its method. -/
  | work {s : State} {i : ℕ} {m : Method} {job job' : Job} (hm : methods[i]? = some m)
      (hjob : s.jobs[i]? = some job) (hphase : job.phase.dispatched = true)
      (hmove : Move config m s.canceled job job') :
      Step config slots methods s
        { s with
          taken := s.taken - (!job'.phase.holds).toNat
          jobs := s.jobs.set i job' }

/-- A run of any number of steps. -/
abbrev Runs (config : Config) (slots : ℕ+) (methods : List Method) : State → State → Prop :=
  Relation.ReflTransGen (Step config slots methods)

/-- A state that some schedule leads to. -/
abbrev Reachable (config : Config) (slots : ℕ+) (methods : List Method) (s : State) : Prop :=
  Runs config slots methods (.start methods) s

variable {config : Config} {slots : ℕ+} {methods : List Method} {s s' : State}

/-! ## Properties of all jobs -/

/-- Every method and its job have the property. -/
def State.Each (s : State) (methods : List Method) (P : ℕ → Method → Job → Prop) : Prop :=
  ∀ i m job, methods[i]? = some m → s.jobs[i]? = some job → P i m job

theorem getElem?_set_cases {α : Type} {l : List α} {i j : ℕ} {a x : α}
    (h : (l.set i a)[j]? = some x) : (j = i ∧ x = a) ∨ (j ≠ i ∧ l[j]? = some x) := by
  rw [List.getElem?_set] at h
  split at h
  · rename_i hij
    split at h
    · exact .inl ⟨hij.symm, (Option.some.inj h).symm⟩
    · cases h
  · rename_i hij
    exact .inr ⟨fun hji => hij hji.symm, h⟩

/-- The property is kept when one job is replaced by another with the property. -/
theorem State.Each.set {P : ℕ → Method → Job → Prop} (h : s.Each methods P) {i : ℕ} {m : Method}
    {job : Job} (hm : methods[i]? = some m) (hjob : P i m job)
    (hs' : s'.jobs = s.jobs.set i job) : s'.Each methods P := by
  intro k m' job' hm' hjob'
  rw [hs'] at hjob'
  obtain ⟨rfl, rfl⟩ | ⟨-, hold⟩ := getElem?_set_cases hjob'
  · rw [hm] at hm'
    cases hm'
    exact hjob
  · exact h k m' job' hm' hold

/-- A property of jobs that every move and the cancellation keep is kept by every step. -/
theorem Step.each {P : Bool → ℕ → Method → Job → Prop}
    (hcancel : ∀ i m job, P false i m job → P true i m job)
    (hmove : ∀ c i m job job', P c i m job → Move config m c job job' → P c i m job')
    (hstep : Step config slots methods s s') (h : s.Each methods (P s.canceled)) :
    s'.Each methods (P s'.canceled) := by
  cases hstep with
  | cancel hc =>
    intro i m job hm hjob
    exact hcancel i m job (hc ▸ h i m job hm hjob)
  | dispatch hm hjob _ hjob' _ =>
    exact h.set hm (hmove _ _ _ _ _ (h _ _ _ hm hjob) hjob') rfl
  | work hm hjob _ hjob' =>
    exact h.set hm (hmove _ _ _ _ _ (h _ _ _ hm hjob) hjob') rfl

/-- What every step keeps, every run keeps. -/
theorem Runs.each {P : Bool → ℕ → Method → Job → Prop}
    (hcancel : ∀ i m job, P false i m job → P true i m job)
    (hmove : ∀ c i m job job', P c i m job → Move config m c job job' → P c i m job')
    (hrun : Runs config slots methods s s') (h : s.Each methods (P s.canceled)) :
    s'.Each methods (P s'.canceled) := by
  induction hrun with
  | refl => exact h
  | tail _ hstep ih => exact hstep.each hcancel hmove ih

/-! ## What becomes of a method -/

/-- No worker has looked at the cancellation for the method, and nobody has seen it. -/
inductive Unstarted (m : Method) : Job → Prop where
  | waiting : Unstarted m ⟨.waiting, {}⟩
  | announced : Unstarted m ⟨.announced, { method := some m }⟩
  | spawned : Unstarted m ⟨.spawned, { method := some m }⟩

/-- The worker has passed its look at the cancellation. -/
inductive Started (config : Config) (m : Method) : Job → Prop where
  | analysing : Started config m ⟨.analysing, { method := some m }⟩
  | returning : Started config m ⟨.returning, .of ⟨m, .analysed (preAnalyze config m)⟩⟩
  | finished : Started config m ⟨.finished, .of ⟨m, .analysed (preAnalyze config m)⟩⟩

/-- The dispatcher or the worker has seen the cancellation. -/
inductive TurnedDown (m : Method) : Job → Prop where
  | turnedAway : TurnedDown m ⟨.turnedAway, { method := some m }⟩
  | stopping : TurnedDown m ⟨.stopping, { method := some m }⟩
  | returning : TurnedDown m ⟨.returning, .of ⟨m, .canceled⟩⟩
  | finished : TurnedDown m ⟨.finished, .of ⟨m, .canceled⟩⟩

section

variable {m : Method} {job job' : Job} {canceled : Bool}

/-- A worker that has started goes on to the end, cancelled or not. -/
theorem Started.move (h : Started config m job) (hmove : Move config m canceled job job') :
    Started config m job' := by
  cases h with
  | analysing =>
    cases hmove with
    | analyse => exact .returning
  | returning =>
    cases hmove with
    | release => exact .finished
  | finished => cases hmove

/-- A method that was turned down is not analysed any more. -/
theorem TurnedDown.move (h : TurnedDown m job) (hmove : Move config m canceled job job') :
    TurnedDown m job' := by
  cases h with
  | turnedAway =>
    cases hmove with
    | turnAway => exact .finished
  | stopping =>
    cases hmove with
    | giveUp => exact .returning
  | returning =>
    cases hmove with
    | release => exact .finished
  | finished => cases hmove

/-- As long as a run is not cancelled, no method is turned down. -/
theorem Unstarted.move (h : Unstarted m job) (hmove : Move config m false job job') :
    Unstarted m job' ∨ Started config m job' := by
  cases h with
  | waiting =>
    cases hmove with
    | announce => exact .inl .announced
  | announced =>
    cases hmove with
    | observe _ hc => cases hc
    | spawn => exact .inl .spawned
  | spawned =>
    cases hmove with
    | pass => exact .inr .analysing
    | stop _ hc => cases hc

/-- After the cancellation of a run, no method is started. A worker may still be spawned for it,
but that worker sees the cancellation. -/
theorem Unstarted.move_canceled (h : Unstarted m job) (hmove : Move config m true job job') :
    Unstarted m job' ∨ TurnedDown m job' := by
  cases h with
  | waiting =>
    cases hmove with
    | announce => exact .inl .announced
  | announced =>
    cases hmove with
    | observe => exact .inr .turnedAway
    | spawn => exact .inl .spawned
  | spawned =>
    cases hmove with
    | pass _ hc => cases hc
    | stop => exact .inr .stopping

end

/-! A finished job has its result. -/

theorem Started.slot_eq {m : Method} {job : Job} (h : Started config m job)
    (hphase : job.phase = .finished) : job.slot = .of ⟨m, .analysed (preAnalyze config m)⟩ := by
  cases h with
  | analysing => cases hphase
  | returning => rfl
  | finished => rfl

theorem TurnedDown.slot_eq {m : Method} {job : Job} (h : TurnedDown m job)
    (hphase : job.phase = .finished) : job.slot = .of ⟨m, .canceled⟩ := by
  cases h with
  | turnedAway => cases hphase
  | stopping => cases hphase
  | returning => rfl
  | finished => rfl

theorem Unstarted.phase_ne {m : Method} {job : Job} (h : Unstarted m job) :
    job.phase ≠ .finished := by
  intro hphase
  cases h <;> cases hphase

/-- The job of the method `m`, at any point of a run. -/
def Sound (config : Config) (canceled : Bool) (m : Method) (job : Job) : Prop :=
  Started config m job ∨ Unstarted m job ∨ canceled = true ∧ TurnedDown m job

/-- Every move keeps a job sound. -/
theorem Sound.move {m : Method} {job job' : Job} {canceled : Bool}
    (h : Sound config canceled m job) (hmove : Move config m canceled job job') :
    Sound config canceled m job' := by
  rcases h with h | h | ⟨rfl, h⟩
  · exact .inl (h.move hmove)
  · cases canceled with
    | false =>
      rcases h.move hmove with h' | h'
      · exact .inr (.inl h')
      · exact .inl h'
    | true =>
      rcases h.move_canceled hmove with h' | h'
      · exact .inr (.inl h')
      · exact .inr (.inr ⟨rfl, h'⟩)
  · exact .inr (.inr ⟨rfl, h.move hmove⟩)

/-- In the end a sound job holds the result of its method or, in a cancelled run, the error. -/
theorem Sound.slot_eq {m : Method} {job : Job} {canceled : Bool}
    (h : Sound config canceled m job) (hphase : job.phase = .finished) :
    job.slot = .of ⟨m, .analysed (preAnalyze config m)⟩ ∨
      canceled = true ∧ job.slot = .of ⟨m, .canceled⟩ := by
  rcases h with h | h | ⟨hc, h⟩
  · exact .inl (h.slot_eq hphase)
  · exact absurd hphase h.phase_ne
  · exact .inr ⟨hc, h.slot_eq hphase⟩

theorem getElem?_start {i : ℕ} {job : Job} (h : (State.start methods).jobs[i]? = some job) :
    job = ⟨.waiting, {}⟩ := by
  rw [State.start, List.getElem?_map] at h
  obtain ⟨m, -, rfl⟩ := Option.map_eq_some_iff.mp h
  rfl

/-- In every reachable state all jobs are sound. -/
theorem sound_of_reachable (h : Reachable config slots methods s) :
    s.Each methods fun _ m job => Sound config s.canceled m job := by
  refine Runs.each (P := fun c _ m job => Sound config c m job) ?_ ?_ h ?_
  · intro i m job hsound
    rcases hsound with hstarted | hunstarted | ⟨hc, -⟩
    · exact .inl hstarted
    · exact .inr (.inl hunstarted)
    · cases hc
  · intro c i m job job' hsound hmove
    exact hsound.move hmove
  · intro i m job _ hjob
    rw [getElem?_start hjob]
    exact .inr (.inl .waiting)

/-- From the cancellation on, the methods that had started by then are analysed, and no others. -/
theorem each_of_canceled (h : Reachable config slots methods s) (hc : s.canceled = false)
    (hrun : Runs config slots methods { s with canceled := true } s') :
    s'.Each methods fun i m job =>
      if s.passed i then Started config m job else Unstarted m job ∨ TurnedDown m job := by
  have hsound := sound_of_reachable h
  have hmain := Runs.each (P := fun c i m job => c = true ∧
    if s.passed i then Started config m job else Unstarted m job ∨ TurnedDown m job) ?_ ?_ hrun ?_
  · exact fun i m job hm hjob => (hmain i m job hm hjob).2
  · rintro i m job ⟨⟨⟩, -⟩
  · rintro c i m job job' ⟨rfl, hjob⟩ hmove
    refine ⟨rfl, ?_⟩
    split at hjob
    · rename_i hpassed
      rw [if_pos hpassed]
      exact hjob.move hmove
    · rename_i hpassed
      rw [if_neg hpassed]
      rcases hjob with hjob | hjob
      · exact hjob.move_canceled hmove
      · exact .inr (hjob.move hmove)
  -- when the cancellation comes, each method has either started or not been looked at
  · intro i m job hm hjob
    refine ⟨rfl, ?_⟩
    have hpassed : s.passed i = job.phase.passed := by
      rw [State.passed, hjob, Option.any_some]
    rw [hpassed]
    rcases hsound i m job hm hjob with hstarted | hunstarted | ⟨htrue, -⟩
    · rw [if_pos (by cases hstarted <;> rfl)]
      exact hstarted
    · rw [if_neg (by cases hunstarted <;> exact Bool.false_ne_true)]
      exact .inl hunstarted
    · rw [hc] at htrue
      cases htrue

/-! ## Slots of the semaphore -/

/-- The dispatcher and the semaphore agree with the phases of the jobs. -/
structure Counted (slots : ℕ+) (methods : List Method) (s : State) : Prop where
  length_eq : s.jobs.length = methods.length
  next_le : s.next ≤ methods.length
  dispatched_iff : ∀ i job, s.jobs[i]? = some job → (job.phase.dispatched = true ↔ i < s.next)
  taken_eq : s.taken = s.jobs.countP (·.phase.holds)
  taken_le : s.taken ≤ slots

theorem Phase.holds_of_not_dispatched {p : Phase} (h : p.dispatched = false) : p.holds = false := by
  cases p <;> first | rfl | cases h

theorem Move.of_dispatched {m : Method} {job job' : Job} {canceled : Bool}
    (hmove : Move config m canceled job job') (h : job.phase.dispatched = true) :
    job.phase.holds = true ∧ job'.phase.dispatched = true := by
  cases hmove <;> first | exact ⟨rfl, rfl⟩ | cases h

/-- A job is replaced by one in another phase. -/
theorem countP_set_of_getElem? (p : Job → Bool) {jobs : List Job} {i : ℕ} {job : Job}
    (h : jobs[i]? = some job) (job' : Job) :
    (jobs.set i job').countP p + (p job).toNat = jobs.countP p + (p job').toNat := by
  obtain ⟨hi, rfl⟩ := List.getElem?_eq_some_iff.mp h
  have hbit : ∀ b : Bool, (if b = true then 1 else 0) = b.toNat := fun b => by cases b <;> rfl
  have hle : (p jobs[i]).toNat ≤ jobs.countP p := by
    cases hp : p jobs[i] with
    | false => exact Nat.zero_le _
    | true => exact List.countP_pos_iff.mpr ⟨_, List.getElem_mem hi, hp⟩
  rw [List.countP_set hi, hbit, hbit]
  omega

/-- To begin with, all slots of the semaphore are free. -/
theorem counted_start (slots : ℕ+) (methods : List Method) :
    Counted slots methods (.start methods) where
  length_eq := List.length_map _
  next_le := Nat.zero_le _
  dispatched_iff i job hjob := by
    rw [getElem?_start hjob]
    exact ⟨fun h => absurd h Bool.false_ne_true, fun h => absurd h (Nat.not_lt_zero i)⟩
  taken_eq := by
    refine (List.countP_eq_zero.mpr fun job hjob => ?_).symm
    obtain ⟨m, -, rfl⟩ := List.mem_map.mp hjob
    exact Bool.false_ne_true
  taken_le := Nat.zero_le _

/-- Every step keeps count of the slots. -/
theorem Step.counted (hstep : Step config slots methods s s') (h : Counted slots methods s) :
    Counted slots methods s' := by
  cases hstep with
  | cancel hc => exact ⟨h.length_eq, h.next_le, h.dispatched_iff, h.taken_eq, h.taken_le⟩
  | @dispatch m job job' hm hjob hphase hmove hfree =>
    have hlt : s.next < methods.length := (List.getElem?_eq_some_iff.mp hm).1
    have hcount := countP_set_of_getElem? (fun job => job.phase.holds) hjob job'
    have hbit : job'.phase.dispatched.toNat ≤ 1 := Bool.toNat_le _
    simp only [Phase.holds_of_not_dispatched hphase] at hcount
    refine ⟨by rw [List.length_set, h.length_eq], ?_, ?_, ?_, ?_⟩
    · show s.next + _ ≤ _
      omega
    · intro i job₁ hjob₁
      obtain ⟨rfl, rfl⟩ | ⟨hne, hold⟩ := getElem?_set_cases hjob₁
      · cases job₁.phase.dispatched <;> simp
      · rw [h.dispatched_iff i job₁ hold]
        show i < s.next ↔ i < s.next + _
        omega
    · show s.taken + _ = _
      rw [h.taken_eq]
      simpa using hcount.symm
    · show s.taken + _ ≤ _
      cases hholds : job'.phase.holds with
      | false => exact h.taken_le
      | true => exact hfree hholds
  | @work k m job job' hm hjob hphase hmove =>
    obtain ⟨hholds, hdispatched⟩ := hmove.of_dispatched hphase
    have hcount := countP_set_of_getElem? (fun job => job.phase.holds) hjob job'
    have htaken := h.taken_eq
    simp only [hholds] at hcount
    refine ⟨by rw [List.length_set, h.length_eq], h.next_le, ?_, ?_, ?_⟩
    · intro i job₁ hjob₁
      obtain ⟨rfl, rfl⟩ | ⟨hne, hold⟩ := getElem?_set_cases hjob₁
      · rw [← h.dispatched_iff _ job hjob, hphase, hdispatched]
      · exact h.dispatched_iff i job₁ hold
    · show s.taken - _ = _
      cases hholds' : job'.phase.holds <;> simp [hholds'] at hcount ⊢ <;> omega
    · exact (Nat.sub_le _ _).trans h.taken_le

/-- In every reachable state the slots are counted. -/
theorem counted_of_reachable (h : Reachable config slots methods s) : Counted slots methods s := by
  induction h with
  | refl => exact counted_start slots methods
  | tail _ hstep ih => exact hstep.counted ih

/-- A method in analysis holds a slot of the semaphore. -/
theorem Counted.inFlight_le (h : Counted slots methods s) : s.inFlight ≤ slots := by
  have hle : s.inFlight ≤ s.jobs.countP (·.phase.holds) := by
    apply List.countP_mono_left
    intro job _ hjob
    rw [of_decide_eq_true hjob]
    rfl
  rw [← h.taken_eq] at hle
  exact hle.trans h.taken_le

/-- A machine with a processor has a slot for a method, whatever the settings. -/
theorem slots_pos (config : Config) (processors : ℕ+) : 0 < config.slots processors := by
  unfold Config.slots
  split
  · exact processors.pos
  · omega

/-- The semaphore that the settings ask for on a machine with this many processors. -/
def semaphore (config : Config) (processors : ℕ+) : ℕ+ :=
  ⟨config.slots processors, slots_pos config processors⟩

/-- The settings bound the analyses in flight, or the processors do if the settings leave it to
them. -/
theorem inFlight_le_workers {processors : ℕ+}
    (h : Reachable config (semaphore config processors) methods s) :
    (s.inFlight : ℤ) ≤ if config.workers < 1 then (processors : ℤ) else config.workers := by
  have hle : s.inFlight ≤ config.slots processors := (counted_of_reachable h).inFlight_le
  unfold Config.slots at hle
  split_ifs at hle ⊢ <;> omega

/-! ## Progress -/

/-- The steps that are still to come are at most that many. -/
def State.rank (s : State) : ℕ := (s.jobs.map (·.phase.rank)).sum + (!s.canceled).toNat

/-- Every move brings the job nearer to its end. -/
theorem Move.rank_lt {m : Method} {job job' : Job} {canceled : Bool}
    (hmove : Move config m canceled job job') : job'.phase.rank < job.phase.rank := by
  cases hmove <;> simp only [Phase.rank] <;> omega

theorem sum_rank_set_lt {jobs : List Job} {i : ℕ} {job job' : Job} (h : jobs[i]? = some job)
    (hlt : job'.phase.rank < job.phase.rank) :
    ((jobs.set i job').map (·.phase.rank)).sum < (jobs.map (·.phase.rank)).sum := by
  induction jobs generalizing i with
  | nil => cases h
  | cons first rest ih =>
    cases i with
    | zero =>
      cases h
      simp only [List.set_cons_zero, List.map_cons, List.sum_cons]
      omega
    | succ i =>
      have hrest := ih h
      simp only [List.set_cons_succ, List.map_cons, List.sum_cons]
      omega

/-- Every schedule comes to an end. -/
theorem Step.rank_lt (hstep : Step config slots methods s s') : s'.rank < s.rank := by
  cases hstep with
  | cancel hc =>
    rw [State.rank, State.rank, hc]
    exact Nat.lt_succ_self _
  | dispatch hm hjob hphase hmove hfree =>
    exact Nat.add_lt_add_right (sum_rank_set_lt hjob hmove.rank_lt) _
  | work hm hjob hphase hmove => exact Nat.add_lt_add_right (sum_rank_set_lt hjob hmove.rank_lt) _

/-- A worker that has not returned can do something. -/
theorem exists_move_of_worker (config : Config) (m : Method) (canceled : Bool) {job : Job}
    (hdispatched : job.phase.dispatched = true) (hne : job.phase ≠ .finished) :
    ∃ job', Move config m canceled job job' := by
  rcases job with ⟨phase, slot⟩
  cases phase with
  | waiting => cases hdispatched
  | announced => cases hdispatched
  | turnedAway => cases hdispatched
  | spawned =>
    cases canceled with
    | false => exact ⟨_, .pass slot rfl⟩
    | true => exact ⟨_, .stop slot rfl⟩
  | analysing => exact ⟨_, .analyse slot⟩
  | stopping => exact ⟨_, .giveUp slot⟩
  | returning => exact ⟨_, .release slot⟩
  | finished => exact absurd rfl hne

/-- The dispatcher can do something about a method it has come to, if need be with a slot of the
semaphore. -/
theorem exists_move_of_dispatcher (config : Config) (m : Method) (canceled : Bool) {job : Job}
    (hdispatched : job.phase.dispatched = false) :
    ∃ job', Move config m canceled job job' := by
  rcases job with ⟨phase, slot⟩
  cases phase with
  | waiting => exact ⟨_, .announce slot⟩
  | announced => exact ⟨_, .spawn slot⟩
  | turnedAway => exact ⟨_, .turnAway slot⟩
  | spawned => cases hdispatched
  | analysing => cases hdispatched
  | stopping => cases hdispatched
  | returning => cases hdispatched
  | finished => cases hdispatched

/-- A run that has not ended can go on, without being cancelled. -/
theorem exists_step_of_not_final (config : Config) (h : Counted slots methods s)
    (hno : ¬ s.Final methods) :
    ∃ s', Step config slots methods s s' ∧ s'.canceled = s.canceled := by
  by_cases hworker : ∃ (i : ℕ) (job : Job), s.jobs[i]? = some job ∧
      job.phase.dispatched = true ∧ job.phase ≠ .finished
  · obtain ⟨i, job, hjob, hdispatched, hne⟩ := hworker
    obtain ⟨m, hm⟩ : ∃ m, methods[i]? = some m := by
      have hlt := (List.getElem?_eq_some_iff.mp hjob).1
      rw [h.length_eq] at hlt
      exact ⟨_, List.getElem?_eq_getElem hlt⟩
    obtain ⟨job', hmove⟩ := exists_move_of_worker config m s.canceled hdispatched hne
    exact ⟨_, .work hm hjob hdispatched hmove, rfl⟩
  · push Not at hworker
    -- all workers have returned, so the dispatcher has not, and every slot is free
    have hlt : s.next < methods.length := by
      by_contra hge
      have hnext : s.next = methods.length := by
        have := h.next_le
        omega
      refine hno ⟨hnext, fun job hjob => ?_⟩
      obtain ⟨i, hi, rfl⟩ := List.getElem_of_mem hjob
      have hget := List.getElem?_eq_getElem hi
      refine hworker i _ hget ((h.dispatched_iff i _ hget).mpr ?_)
      rw [hnext, ← h.length_eq]
      exact hi
    have htaken : s.taken = 0 := by
      rw [h.taken_eq, List.countP_eq_zero]
      intro job hjob hholds
      obtain ⟨i, hi, rfl⟩ := List.getElem_of_mem hjob
      have hdispatched : s.jobs[i].phase.dispatched = true := by
        by_contra hnot
        rw [Phase.holds_of_not_dispatched (by simpa using hnot)] at hholds
        cases hholds
      rw [hworker i _ (List.getElem?_eq_getElem hi) hdispatched] at hholds
      cases hholds
    have hm : methods[s.next]? = some methods[s.next] := List.getElem?_eq_getElem hlt
    obtain ⟨job, hjob⟩ : ∃ job, s.jobs[s.next]? = some job := by
      rw [← h.length_eq] at hlt
      exact ⟨_, List.getElem?_eq_getElem hlt⟩
    have hdispatched : job.phase.dispatched = false := by
      by_contra hnot
      have := (h.dispatched_iff _ job hjob).mp (by simpa using hnot)
      omega
    obtain ⟨job', hmove⟩ := exists_move_of_dispatcher config methods[s.next] s.canceled hdispatched
    refine ⟨_, .dispatch hm hjob hdispatched hmove fun _ => ?_, rfl⟩
    rw [htaken]
    exact slots.pos

/-- Every run can be brought to its end. -/
theorem exists_final (config : Config) (h : Counted slots methods s) :
    ∃ f, Runs config slots methods s f ∧ f.Final methods ∧ f.canceled = s.canceled := by
  induction hn : s.rank using Nat.strong_induction_on generalizing s with
  | _ n ih =>
    by_cases hfinal : s.Final methods
    · exact ⟨s, .refl, hfinal, rfl⟩
    · obtain ⟨s', hstep, hc⟩ := exists_step_of_not_final config h hfinal
      have hlt := hstep.rank_lt
      obtain ⟨f, hrun, hf, hc'⟩ := ih s'.rank (hn ▸ hlt) (hstep.counted h) rfl
      exact ⟨f, hrun.head hstep, hf, hc'.trans hc⟩

/-! ## Results -/

theorem Slot.method_of (r : MethodResult) : (Slot.of r).method = some r.method := by
  rcases r with ⟨m, v | _⟩ <;> rfl

/-- A slot with a result has a finding or an error, and not both. -/
theorem Slot.isSome_ne_of (r : MethodResult) :
    (Slot.of r).analysis.isSome ≠ (Slot.of r).error.isSome := by
  rcases r with ⟨m, ⟨result, records⟩ | _⟩
  · cases result with
    | error h => exact Bool.false_ne_true
    | ok a => exact Bool.false_ne_true.symm
  · exact Bool.false_ne_true

/-- Slots that hold the results of a batch one by one hold them all. -/
theorem results_eq_run {refused : Refused} (hlength : s.jobs.length = methods.length)
    (h : s.Each methods fun i m job => job.slot = Slot.of (one config refused m i)) :
    s.results = (run config refused methods).map Slot.of := by
  apply List.ext_getElem?
  intro i
  rw [State.results, run, List.getElem?_map, List.getElem?_map, List.getElem?_mapIdx]
  by_cases hi : i < methods.length
  · have hm := List.getElem?_eq_getElem hi
    have hjob := List.getElem?_eq_getElem (hlength ▸ hi)
    rw [hm, hjob]
    exact congrArg some (h i _ _ hm hjob)
  · rw [List.getElem?_eq_none (by omega), List.getElem?_eq_none (by omega)]
    rfl

theorem State.Final.phase_eq {i : ℕ} {job : Job} (h : s.Final methods)
    (hjob : s.jobs[i]? = some job) : job.phase = .finished :=
  h.finished job (List.mem_of_getElem? hjob)

/-- The result slot of a method in the end. -/
theorem exists_slot_of_final (h : Reachable config slots methods s) (hfinal : s.Final methods)
    {i : ℕ} {m : Method} (hm : methods[i]? = some m) :
    ∃ slot, s.results[i]? = some slot ∧
      (slot = .of ⟨m, .analysed (preAnalyze config m)⟩ ∨
        s.canceled = true ∧ slot = .of ⟨m, .canceled⟩) := by
  have hlength := (counted_of_reachable h).length_eq
  have hi : i < s.jobs.length := by
    rw [hlength]
    exact (List.getElem?_eq_some_iff.mp hm).1
  have hjob := List.getElem?_eq_getElem hi
  refine ⟨s.jobs[i].slot, by rw [State.results, List.getElem?_map, hjob]; rfl, ?_⟩
  exact (sound_of_reachable h i m _ hm hjob).slot_eq (hfinal.phase_eq hjob)

/-- A run that was cancelled in the state `s` has the results of a batch that refuses the methods
whose workers had not passed their look at the cancellation. -/
theorem results_of_canceled {f : State} (h : Reachable config slots methods s)
    (hc : s.canceled = false) (hrun : Runs config slots methods { s with canceled := true } f)
    (hfinal : f.Final methods) :
    f.results = (run config (fun i => !s.passed i) methods).map Slot.of := by
  have hreach : Reachable config slots methods f := h.trans (hrun.head (.cancel hc))
  have hcounted := counted_of_reachable hreach
  refine results_eq_run hcounted.length_eq fun i m job hm hjob => ?_
  have hphase := hfinal.phase_eq hjob
  have hdone : if s.passed i then Started config m job else Unstarted m job ∨ TurnedDown m job :=
    each_of_canceled h hc hrun i m job hm hjob
  show job.slot = Slot.of ⟨m, if !s.passed i then .canceled else .analysed (preAnalyze config m)⟩
  cases hpassed : s.passed i with
  | true =>
    rw [hpassed, if_pos rfl] at hdone
    exact hdone.slot_eq hphase
  | false =>
    rw [hpassed, if_neg Bool.false_ne_true] at hdone
    exact (hdone.resolve_left fun h => h.phase_ne hphase).slot_eq hphase

/-- A run that was not cancelled has the results of all analyses. -/
theorem results_of_not_canceled (h : Reachable config slots methods s) (hfinal : s.Final methods)
    (hc : s.canceled = false) : s.results = (run config Refused.none methods).map Slot.of := by
  have hcounted := counted_of_reachable h
  refine results_eq_run hcounted.length_eq fun i m job hm hjob => ?_
  rcases (sound_of_reachable h i m job hm hjob).slot_eq (hfinal.phase_eq hjob) with hslot | ⟨htrue, -⟩
  · exact hslot
  · rw [hc] at htrue
    cases htrue

/-- What holds of a batch under every schedule. -/
structure SafeSchedules (config : Config) (slots : ℕ+) (methods : List Method) : Prop where
  /-- At any time, at most as many methods are in analysis as the semaphore has slots. -/
  inFlight_le : ∀ s, Reachable config slots methods s → s.inFlight ≤ slots
  /-- In the end every slot holds its method, and either what the analysis of the method on its own
  returns or, in a cancelled run, the error that says so; never both, and never neither. -/
  results : ∀ s, Reachable config slots methods s → s.Final methods →
    s.results.length = methods.length ∧
    ∀ (i : ℕ) (m : Method), methods[i]? = some m → ∃ slot : Slot, s.results[i]? = some slot ∧
      slot.method = some m ∧
      ((slot.analysis, slot.error) = Slot.returned (preAnalyze config m).result ∨
        s.canceled = true ∧ (slot.analysis, slot.error) = (none, some .canceled)) ∧
      slot.analysis.isSome ≠ slot.error.isSome
  /-- A run that is cancelled in the state `s` analyses the methods whose workers have passed their
  look at the cancellation by then, and no others. -/
  canceled : ∀ s f, Reachable config slots methods s → s.canceled = false →
    Runs config slots methods { s with canceled := true } f → f.Final methods →
    f.results = (run config (fun i => !s.passed i) methods).map Slot.of
  /-- A run that is not cancelled analyses all methods. -/
  uncanceled : ∀ f, Reachable config slots methods f → f.Final methods → f.canceled = false →
    f.results = (run config Refused.none methods).map Slot.of
  /-- Every schedule comes to an end, and none gets stuck before it. -/
  ends : (∀ s s', Step config slots methods s s' → s'.rank < s.rank) ∧
    ∀ s, Reachable config slots methods s →
      ∃ f, Runs config slots methods s f ∧ f.Final methods ∧ f.canceled = s.canceled

/-- Under every schedule a batch does what it does one method after the other: whatever the number
of slots, the interleaving and the time of a cancellation, each method has its own result. -/
theorem safeSchedules (config : Config) (slots : ℕ+) (methods : List Method) :
    SafeSchedules config slots methods where
  inFlight_le s h := (counted_of_reachable h).inFlight_le
  results s h hfinal := by
    have hcounted := counted_of_reachable h
    refine ⟨by rw [State.results, List.length_map, hcounted.length_eq], fun i m hm => ?_⟩
    obtain ⟨slot, hslot, rfl | ⟨hc, rfl⟩⟩ := exists_slot_of_final h hfinal hm
    · exact ⟨_, hslot, Slot.method_of _, .inl rfl, Slot.isSome_ne_of _⟩
    · exact ⟨_, hslot, Slot.method_of _, .inr ⟨hc, rfl⟩, Slot.isSome_ne_of _⟩
  canceled s f h hc hrun hfinal := results_of_canceled h hc hrun hfinal
  uncanceled f h hfinal hc := results_of_not_canceled h hfinal hc
  ends := by
    refine ⟨fun s s' => Step.rank_lt, fun s h => ?_⟩
    exact exists_final config (counted_of_reachable h)

end Batch
end Dalvik
