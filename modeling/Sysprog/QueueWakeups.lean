import Mathlib.Data.Finset.Card
import Sysprog.QueueRoom

namespace Sysprog.MessageQueue

open Execution MachineWord

/-!
# Signals that wake the wrong thread

Both condition variables are signalled once for each change of the queue, so a wake-up
is lost when it goes to a thread that cannot use it.  Where all messages are of one
kind, enough threads are awake at any time for what there is to do.
-/

variable {Id : Type}

/-! ## Enough threads are awake -/

/--
If a thread in one of these tasks sleeps, then as many threads in such a task as are
needed are awake.
-/
def Served (threads : Id → Thread) (role : Task → Prop) (needed : Nat) : Prop :=
  (∃ thread, role (threads thread).task ∧ (threads thread).asleep ≠ none) →
  ∃ awake : Finset Id,
    (∀ thread ∈ awake, role (threads thread).task ∧ (threads thread).asleep = none) ∧
      needed ≤ awake.card

namespace Served

variable {threads : Id → Thread} {role : Task → Prop} {needed : Nat}

theorem zero : Served threads role 0 :=
  fun _ => ⟨∅, by simp, Nat.zero_le _⟩

theorem mono
    {fewer : Nat}
    (served : Served threads role needed)
    (atMost : fewer ≤ needed) :
    Served threads role fewer := by
  intro sleeper
  obtain ⟨awake, members, enough⟩ := served sleeper
  exact ⟨awake, members, atMost.trans enough⟩

end Served

variable [DecidableEq Id]

namespace Served

variable
  {threads : Id → Thread}
  {role : Task → Prop}
  {needed : Nat}
  {thread : Id}
  {state : Thread}
  {woken : Option Id}

/-- A thread outside the role does something else outside the role, or joins it awake. -/
theorem update
    (served : Served threads role needed)
    (before : ¬ role (threads thread).task)
    (after : role state.task → state.asleep = none) :
    Served (Function.update threads thread state) role needed := by
  rintro ⟨sleeper, inRole, asleep⟩
  have different : sleeper ≠ thread := by
    rintro rfl
    rw [Function.update_self] at inRole asleep
    exact asleep (after inRole)
  rw [Function.update_of_ne different] at inRole asleep
  obtain ⟨awake, members, enough⟩ := served ⟨sleeper, inRole, asleep⟩
  refine ⟨awake, ?_, enough⟩
  intro member isMember
  have other : member ≠ thread := by
    rintro rfl
    exact before (members _ isMember).1
  rw [Function.update_of_ne other]
  exact members member isMember

/-- A thread that leaves the role is one fewer. -/
theorem leave
    (served : Served threads role needed)
    (outside : ¬ role state.task) :
    Served (Function.update threads thread state) role (needed - 1) := by
  rintro ⟨sleeper, inRole, asleep⟩
  have different : sleeper ≠ thread := by
    rintro rfl
    rw [Function.update_self] at inRole
    exact outside inRole
  rw [Function.update_of_ne different] at inRole asleep
  obtain ⟨awake, members, enough⟩ := served ⟨sleeper, inRole, asleep⟩
  refine ⟨awake.erase thread, ?_, ?_⟩
  · intro member isMember
    obtain ⟨other, isMember⟩ := Finset.mem_erase.mp isMember
    rw [Function.update_of_ne other]
    exact members member isMember
  · have card := Finset.pred_card_le_card_erase (s := awake) (a := thread)
    omega

/-- A wake-up leaves the threads awake that are awake. -/
theorem asleep_wake
    {other : Id}
    (asleep : (wake threads woken other).asleep ≠ none) :
    (threads other).asleep ≠ none := by
  cases woken with
  | none => exact asleep
  | some woken =>
      by_cases same : other = woken
      · subst same
        simp [wake] at asleep
      · rwa [wake, Function.update_of_ne same] at asleep

/-- Somebody is woken, in this role or another. -/
theorem woken_any (served : Served threads role needed) :
    Served (wake threads woken) role needed := by
  rintro ⟨sleeper, inRole, asleep⟩
  rw [task_wake] at inRole
  obtain ⟨awake, members, enough⟩ := served ⟨sleeper, inRole, asleep_wake asleep⟩
  refine ⟨awake, ?_, enough⟩
  intro member isMember
  obtain ⟨isRole, isAwake⟩ := members member isMember
  refine ⟨by rwa [task_wake], ?_⟩
  by_contra sleeps
  exact asleep_wake sleeps isAwake

/-- A signal to a condition only threads in this role wait for, and all of them do. -/
theorem signalled
    {condition : Condition}
    (served : Served threads role needed)
    (signals : Signals threads condition woken)
    (place :
      ∀ other, (threads other).asleep ≠ none →
        (role (threads other).task ↔ (threads other).asleep = some condition)) :
    Served (wake threads woken) role (needed + 1) := by
  rintro ⟨sleeper, inRole, asleep⟩
  rw [task_wake] at inRole
  have sleeps := asleep_wake asleep
  cases woken with
  | none =>
      exact absurd ((place sleeper sleeps).mp inRole) (signals sleeper)
  | some woken =>
      have wokenAsleep : (threads woken).asleep ≠ none := by
        rw [signals]
        simp
      have wokenRole := (place woken wokenAsleep).mpr signals
      obtain ⟨awake, members, enough⟩ := served ⟨sleeper, inRole, sleeps⟩
      have fresh : woken ∉ awake := fun isMember => wokenAsleep (members woken isMember).2
      refine ⟨insert woken awake, ?_, ?_⟩
      · intro member isMember
        by_cases same : member = woken
        · subst same
          simpa [wake] using wokenRole
        · rw [wake, Function.update_of_ne same]
          exact members member (Finset.mem_of_mem_insert_of_ne isMember same)
      · rw [Finset.card_insert_of_notMem fresh]
        omega

end Served

variable {size : Nat} {lengths maxes : Set Nat} {before after : Room Id} {label : Label Id}

/-! ## Messages of one kind -/

/-- Messages of which equally many fit an empty queue bound the space they take. -/
theorem extent_bounds
    {capacity : Nat}
    {messages : List (List UInt8)}
    (alike : ∀ message ∈ messages, size / (message.length + 16) = capacity) :
    capacity * extent messages ≤ messages.length * size ∧
      messages.length * (size + 1) ≤ (capacity + 1) * extent messages := by
  induction messages with
  | nil =>
      simp
  | cons message rest inductionHypothesis =>
      obtain ⟨below, above⟩ :=
        inductionHypothesis fun other member => alike other (List.mem_cons_of_mem _ member)
      have quotient := alike message List.mem_cons_self
      have oneBelow : capacity * (message.length + 16) ≤ size := by
        rw [← quotient]
        exact Nat.div_mul_le_self _ _
      have oneAbove : size < (message.length + 16) * (capacity + 1) := by
        rw [← quotient]
        exact Nat.lt_mul_div_succ _ (by omega)
      rw [extent_cons, List.length_cons]
      constructor
      · calc
          capacity * (16 + message.length + extent rest) =
              capacity * (message.length + 16) + capacity * extent rest := by ring
          _ ≤ size + rest.length * size := Nat.add_le_add oneBelow below
          _ = (rest.length + 1) * size := by ring
      · calc
          (rest.length + 1) * (size + 1) = (size + 1) + rest.length * (size + 1) := by ring
          _ ≤ (message.length + 16) * (capacity + 1) + (capacity + 1) * extent rest :=
            Nat.add_le_add oneAbove above
          _ = (capacity + 1) * (16 + message.length + extent rest) := by ring

/-- Whether one more message fits depends only on the number of messages. -/
theorem fits_iff
    {capacity : Nat}
    {unread : List (List UInt8)}
    {message : List UInt8}
    (alike : ∀ other ∈ message :: unread, size / (other.length + 16) = capacity) :
    extent unread + frameSize message ≤ size ↔ unread.length < capacity := by
  obtain ⟨below, above⟩ := extent_bounds alike
  have together : extent (message :: unread) = extent unread + frameSize message := by
    rw [extent_cons, frameSize, Nat.add_comm]
  rw [together, List.length_cons] at below above
  constructor
  · intro fits
    by_contra many
    have : (capacity + 1) * (size + 1) ≤ (capacity + 1) * (extent unread + frameSize message) :=
      (Nat.mul_le_mul_right _ (by omega)).trans above
    have := Nat.le_of_mul_le_mul_left this (Nat.succ_pos _)
    omega
  · intro few
    have : capacity * (extent unread + frameSize message) ≤ capacity * size :=
      below.trans (Nat.mul_le_mul_right _ (by omega))
    exact Nat.le_of_mul_le_mul_left this (by omega)

def IsPutting (task : Task) : Prop :=
  ∃ message, task = .putting message

def IsGetting (task : Task) : Prop :=
  ∃ max, task = .getting max

/-- No consumer takes the message. -/
def High (maxes : Set Nat) (message : List UInt8) : Prop :=
  ∀ max ∈ maxes, max < message.length

/--
There are as many producers awake as messages fit, and as many consumers as there are
messages, unless nobody in that role sleeps or a message that nobody takes is in front.
-/
structure Balanced (capacity : Nat) (maxes : Set Nat) (room : Room Id) : Prop where
  putters : Served room.threads IsPutting (capacity - room.unread.length)
  getters :
    (∀ message ∈ room.unread.head?, ¬ High maxes message) →
    Served room.threads IsGetting room.unread.length
  skippers :
    ∀ thread max seq,
      (room.threads thread).task = .skipping max seq →
      ∃ message ∈ room.unread.head?, High maxes message

theorem Wants.not_putting
    {task : Task}
    {max : Nat}
    (wants : Wants task max) :
    ¬ IsPutting task := by
  rintro ⟨message, rfl⟩
  exact wants

/-- What a thread does after one thread changed is its own change or its old task. -/
theorem task_of_update
    {threads : Id → Thread}
    {thread other : Id}
    {state : Thread}
    {task : Task}
    (taskEq : (Function.update threads thread state other).task = task) :
    state.task = task ∨ (threads other).task = task := by
  by_cases same : other = thread
  · subst same
    rw [Function.update_self] at taskEq
    exact Or.inl taskEq
  · rw [Function.update_of_ne same] at taskEq
    exact Or.inr taskEq

/-- A thread waits. -/
theorem balanced_wait
    {capacity : Nat}
    {room : Room Id}
    {thread : Id}
    {task resume : Task}
    {condition : Condition}
    (alike : ∀ length ∈ lengths, size / (length + 16) = capacity)
    (agree : ∀ length ∈ lengths, ∀ one ∈ maxes, ∀ other ∈ maxes, length ≤ one → length ≤ other)
    (peopled : Peopled size lengths maxes room)
    (balanced : Balanced capacity maxes room)
    (running : room.threads thread = { task := task, asleep := none })
    (blocked : Blocked size room.unread task condition resume) :
    Balanced capacity maxes
      { room with
        threads :=
          Function.update room.threads thread { task := resume, asleep := some condition } } := by
  obtain ⟨putters, getters, skippers⟩ := balanced
  have proper := peopled.threads thread
  have taskEq : (room.threads thread).task = task := by rw [running]
  have otherSkippers :
      (∀ max seq, resume = .skipping max seq → ∃ message ∈ room.unread.head?, High maxes message) →
      ∀ other max seq,
        (Function.update room.threads thread { task := resume, asleep := some condition }
          other).task = .skipping max seq →
        ∃ message ∈ room.unread.head?, High maxes message := by
    intro own other max seq skips
    rcases task_of_update skips with resumed | skipping
    · exact own max seq resumed
    · exact skippers other max seq skipping
  cases blocked with
  | @full message noRoom =>
      have full : capacity ≤ room.unread.length := by
        by_contra few
        have inLengths := proper.putting message taskEq
        have fits := (@fits_iff size capacity room.unread message ?_).mpr (by omega)
        · omega
        · intro other member
          rcases List.mem_cons.mp member with rfl | member
          · exact alike _ inLengths
          · exact alike _ (peopled.unread other member)
      refine ⟨?_, ?_, otherSkippers (by simp)⟩
      · rw [show capacity - room.unread.length = 0 by omega]
        exact .zero
      · intro low
        exact (getters low).update (by rw [taskEq]; simp [IsGetting]) (by simp [IsGetting])
  | empty wants noMessage =>
      refine ⟨putters.update (by rw [taskEq]; exact wants.not_putting) (by simp [IsPutting]), ?_,
        otherSkippers (by simp)⟩
      intro _
      rw [noMessage]
      exact .zero
  | @long _ max _ message rest wants front tooLong =>
      have isHigh : High maxes message := by
        intro other member
        by_contra short
        have inLengths := peopled.unread message (by rw [front]; simp)
        have wanted := proper.wanting max (by rwa [taskEq])
        have := agree _ inLengths other member max wanted (by omega)
        omega
      have inFront : message ∈ room.unread.head? := by
        rw [front]
        rfl
      exact ⟨putters.update (by rw [taskEq]; exact wants.not_putting) (by simp [IsPutting]),
        fun low => absurd isHigh (low message inFront),
        otherSkippers fun _ _ _ => ⟨message, inFront, isHigh⟩⟩
  | @unchanged max seq =>
      exact ⟨putters.update (by rw [taskEq]; simp [IsPutting]) (by simp [IsPutting]),
        fun low => (getters low).update (by rw [taskEq]; simp [IsGetting]) (by simp [IsGetting]),
        otherSkippers fun _ _ _ => skippers thread max seq taskEq⟩

omit [DecidableEq Id] in
/-- A sleeper waits for `readable` exactly when it is at the top of `queue_get`. -/
theorem Peopled.getting_iff
    {room : Room Id}
    (peopled : Peopled size lengths maxes room)
    (other : Id)
    (asleep : (room.threads other).asleep ≠ none) :
    IsGetting (room.threads other).task ↔ (room.threads other).asleep = some .readable := by
  obtain ⟨condition, sleeping⟩ := Option.ne_none_iff_exists'.mp asleep
  have place := (peopled.threads other).place condition sleeping
  rw [sleeping]
  cases task : (room.threads other).task <;> rw [task] at place <;>
    simp_all [Sleeps, IsGetting]

omit [DecidableEq Id] in
/-- Without skipping consumers, a sleeper waits for `writeable` exactly when it is putting. -/
theorem Peopled.putting_iff
    {room : Room Id}
    (peopled : Peopled size lengths maxes room)
    (noSkipper : ∀ thread max seq, (room.threads thread).task ≠ .skipping max seq)
    (other : Id)
    (asleep : (room.threads other).asleep ≠ none) :
    IsPutting (room.threads other).task ↔ (room.threads other).asleep = some .writeable := by
  obtain ⟨condition, sleeping⟩ := Option.ne_none_iff_exists'.mp asleep
  have place := (peopled.threads other).place condition sleeping
  rw [sleeping]
  cases task : (room.threads other).task with
  | skipping max seq => exact absurd task (noSkipper other max seq)
  | _ => rw [task] at place; simp_all [Sleeps, IsPutting]

/-- A thread that returns from its call leaves the skipping threads as they are. -/
theorem skipping_of_return
    {threads : Id → Thread}
    {thread other : Id}
    {woken : Option Id}
    {max seq : Nat}
    (skips :
      (Function.update (wake threads woken) thread { task := .outside, asleep := none }
        other).task = .skipping max seq) :
    (threads other).task = .skipping max seq := by
  rcases task_of_update skips with returned | skipping
  · simp at returned
  · rwa [task_wake] at skipping

/-- Every step keeps the balance. -/
theorem balanced_step
    {capacity : Nat}
    (alike : ∀ length ∈ lengths, size / (length + 16) = capacity)
    (agree : ∀ length ∈ lengths, ∀ one ∈ maxes, ∀ other ∈ maxes, length ≤ one → length ≤ other)
    (peopled : Peopled size lengths maxes before)
    (balanced : Balanced capacity maxes before)
    (step : RoomStep size before label after) :
    Balanced capacity maxes after := by
  have ⟨putters, getters, skippers⟩ := balanced
  cases step with
  | @call thread task idle callable =>
      have taskEq : (before.threads thread).task = .outside := by rw [idle]
      refine ⟨putters.update (by rw [taskEq]; simp [IsPutting]) (fun _ => rfl),
        fun low => (getters low).update (by rw [taskEq]; simp [IsGetting]) (fun _ => rfl), ?_⟩
      intro other max seq skips
      rcases task_of_update skips with called | skipping
      · obtain rfl : task = .skipping max seq := called
        exact callable.elim
      · exact skippers other max seq skipping
  | wait running blocked =>
      exact balanced_wait alike agree peopled balanced running blocked
  | @put thread message woken running fits signals =>
      have taskEq : (wake before.threads woken thread).task = .putting message := by
        rw [task_wake, running]
      refine ⟨?_, ?_, ?_⟩
      · refine (putters.woken_any.leave ?_).mono ?_
        · simp [IsPutting]
        · simp only [List.length_append, List.length_singleton]
          omega
      · intro low
        have lowBefore : ∀ first ∈ before.unread.head?, ¬ High maxes first := by
          intro first inFront
          apply low
          rw [List.head?_append, Option.mem_def.mp inFront]
          rfl
        rw [List.length_append, List.length_singleton]
        refine ((getters lowBefore).signalled signals peopled.getting_iff).update ?_ ?_
        · rw [taskEq]
          simp [IsGetting]
        · simp [IsGetting]
      · intro other max seq skips
        obtain ⟨first, inFront, isHigh⟩ := skippers other max seq (skipping_of_return skips)
        refine ⟨first, ?_, isHigh⟩
        rw [List.head?_append, Option.mem_def.mp inFront]
        rfl
  | @got thread task max message rest woken running wants front short signals =>
      have taskEq : (wake before.threads woken thread).task = task := by
        rw [task_wake, running]
      have wanted := (peopled.threads thread).wanting max (by rwa [running])
      have taken : ¬ High maxes message := by
        intro isHigh
        have := isHigh max wanted
        omega
      have lowBefore : ∀ first ∈ before.unread.head?, ¬ High maxes first := by
        rw [front]
        rintro first inFront
        obtain rfl : message = first := by simpa using inFront
        exact taken
      have noSkipper : ∀ other own seq, (before.threads other).task ≠ .skipping own seq := by
        intro other own seq skips
        obtain ⟨first, inFront, isHigh⟩ := skippers other own seq skips
        exact lowBefore first inFront isHigh
      refine ⟨?_, ?_, ?_⟩
      · refine ((putters.signalled signals (peopled.putting_iff noSkipper)).update ?_ ?_).mono ?_
        · rw [taskEq]
          exact wants.not_putting
        · simp [IsPutting]
        · rw [front, List.length_cons]
          simp only
          omega
      · intro _
        have served := getters lowBefore
        rw [front, List.length_cons] at served
        exact served.woken_any.leave (by simp [IsGetting])
      · intro other own seq skips
        exact absurd (skipping_of_return skips) (noSkipper other own seq)
  | @spurious thread =>
      refine ⟨putters.woken_any, fun low => (getters low).woken_any, ?_⟩
      intro other max seq skips
      exact skippers other max seq (by simpa using skips)

/-! ## Messages nobody takes -/

/-- A sleeping producer has no room. -/
def Crowded (size : Nat) (room : Room Id) : Prop :=
  ∀ thread message,
    (room.threads thread).task = .putting message →
    (room.threads thread).asleep ≠ none →
    size < extent room.unread + frameSize message

/-- Where no message that fits is taken, the queue only fills up. -/
theorem crowded_step
    (untaken : ∀ length ∈ lengths, ∀ max ∈ maxes, length + 16 ≤ size → max < length)
    (peopled : Peopled size lengths maxes before)
    (crowded : Crowded size before)
    (step : RoomStep size before label after) :
    Crowded size after := by
  intro other message putting asleep
  cases step with
  | @call thread task idle callable =>
      by_cases same : other = thread
      · subst same
        simp at asleep
      · simp only [Function.update_of_ne same] at putting asleep
        exact crowded other message putting asleep
  | @wait thread task resume condition running blocked =>
      by_cases same : other = thread
      · subst same
        simp only [Function.update_self] at putting
        subst putting
        cases blocked with
        | full noRoom => exact noRoom
      · simp only [Function.update_of_ne same] at putting asleep
        exact crowded other message putting asleep
  | @put thread own woken running fits signals =>
      by_cases same : other = thread
      · subst same
        simp at asleep
      · simp only [Function.update_of_ne same, task_wake] at putting asleep
        have noRoom := crowded other message putting (Served.asleep_wake asleep)
        simp only [extent_append]
        omega
  | @got thread task max own rest woken running wants front short signals =>
      have wanted := (peopled.threads thread).wanting max (by rwa [running])
      have inLengths := peopled.unread own (by rw [front]; simp)
      have fits := peopled.fits
      rw [front, extent_cons] at fits
      have := untaken _ inLengths max wanted (by omega)
      omega
  | @spurious thread =>
      rw [task_wake] at putting
      exact crowded other message putting (Served.asleep_wake asleep)

/-! ## No wake-up is lost -/

/-- The thread could go on: its message fits, or it takes the message in front. -/
def CanProceed (q : Queue) : Task → Prop
  | .outside => False
  | .putting message => add message.length 16 ≤ sub q.size (sub q.tail q.head)
  | .getting max | .skipping max _ => sub q.tail q.head ≠ 0 ∧ (headerAt q q.head).len ≤ max

/-- Nobody is awake in a call, and somebody asleep could go on. -/
def LostWakeup (system : System Id) : Prop :=
  (∀ thread,
      (system.threads thread).task = .outside ∨ (system.threads thread).asleep ≠ none) ∧
    ∃ thread,
      (system.threads thread).asleep ≠ none ∧
        CanProceed system.queue (system.threads thread).task

/-- The lengths of the messages a run sends. -/
def putLengths (labels : List (Label Id)) : Set Nat :=
  { length | ∃ thread message, .call thread (.putting message) ∈ labels ∧ message.length = length }

/-- The bounds of the consumers of a run. -/
def getMaxes (labels : List (Label Id)) : Set Nat :=
  { max | ∃ thread, .call thread (.getting max) ∈ labels }

/--
No message that fits is taken by a consumer; or the queue holds equally many of every
message, and the consumers agree on every message whether they take it.
-/
def Uniform (size : Nat) (lengths maxes : Set Nat) : Prop :=
  (∀ length ∈ lengths, ∀ max ∈ maxes, length + 16 ≤ size → max < length) ∨
    ((∀ one ∈ lengths, ∀ other ∈ lengths, size / (one + 16) = size / (other + 16)) ∧
      ∀ length ∈ lengths, ∀ one ∈ maxes, ∀ other ∈ maxes, length ≤ one → length ≤ other)

/-- A producer in a system can go on when its message fits behind the unread ones. -/
theorem canProceed_putting_iff
    {q : Queue}
    {unread : List (List UInt8)}
    {message : List UInt8}
    (holds : Holds q unread)
    (short : message.length + 16 < words) :
    CanProceed q (.putting message) ↔ extent unread + frameSize message ≤ q.size := by
  have fits := holds.fits
  rw [CanProceed, holds.free_space, add_of_lt short, frameSize]
  omega

/-- A consumer in a system can go on when it takes the first unread message. -/
theorem canProceed_wants_iff
    {q : Queue}
    {unread : List (List UInt8)}
    {task : Task}
    {max : Nat}
    (holds : Holds q unread)
    (wants : Wants task max) :
    CanProceed q task ↔ ∃ message ∈ unread.head?, message.length ≤ max := by
  have addressable := holds.addressable
  have headInside := holds.headInside
  have tailEq := holds.tailEq
  have fits := holds.fits
  have used : sub q.tail q.head = extent unread := by
    rw [sub_of_le (by omega) (by omega)]
    omega
  have meaning : CanProceed q task ↔
      sub q.tail q.head ≠ 0 ∧ (headerAt q q.head).len ≤ max := by
    cases task with
    | outside => exact wants.elim
    | putting => exact wants.elim
    | getting own => rw [CanProceed, show own = max from wants]
    | skipping own _ => rw [CanProceed, show own = max from wants]
  rw [meaning, used]
  cases unread with
  | nil => simp
  | cons message rest => simp [holds.carries_first.header]

omit [DecidableEq Id] in
/-- The calls of a run are with its lengths and bounds. -/
theorem within_own (labels : List (Label Id)) :
    ∀ label ∈ labels, Within (putLengths labels) (getMaxes labels) label := by
  intro label member
  match label with
  | .call thread (.putting message) => exact ⟨thread, message, member, rfl⟩
  | .call thread (.getting max) => exact ⟨thread, member⟩
  | .call _ .outside => trivial
  | .call _ (.skipping _ _) => trivial
  | .enter _ _ => trivial
  | .spurious _ => trivial

omit [DecidableEq Id] in
/-- When nobody is awake in a call, nobody is needed. -/
theorem Served.none_needed
    {threads : Id → Thread}
    {role : Task → Prop}
    {needed : Nat}
    {sleeper : Id}
    (served : Served threads role needed)
    (idle : ∀ thread, (threads thread).task = .outside ∨ (threads thread).asleep ≠ none)
    (notOutside : ¬ role .outside)
    (inRole : role (threads sleeper).task)
    (asleep : (threads sleeper).asleep ≠ none) :
    needed = 0 := by
  obtain ⟨awake, members, enough⟩ := served ⟨sleeper, inRole, asleep⟩
  have nobody : awake = ∅ := by
    rw [Finset.eq_empty_iff_forall_notMem]
    intro thread isMember
    obtain ⟨isRole, isAwake⟩ := members thread isMember
    rcases idle thread with outside | sleeps
    · exact notOutside (outside ▸ isRole)
    · exact sleeps isAwake
  rw [nobody, Finset.card_empty] at enough
  omega

omit [DecidableEq Id] in
/-- In a balanced room where nobody is awake in a call, nobody can go on. -/
theorem balanced_stuck
    {capacity : Nat}
    {system : System Id}
    {unread : List (List UInt8)}
    (alike : ∀ length ∈ lengths, size / (length + 16) = capacity)
    (delivers : Delivers size system unread)
    (peopled : Peopled size lengths maxes system.room)
    (balanced : Balanced capacity maxes system.room) :
    ¬ LostWakeup system := by
  rintro ⟨idle, sleeper, asleep, proceed⟩
  obtain ⟨putters, getters, skippers⟩ := balanced
  have unreadEq : system.room.unread = unread := delivers.unread_eq
  have proper := peopled.threads sleeper
  rw [unreadEq] at putters getters skippers
  cases task : (system.threads sleeper).task with
  | outside =>
      rw [task] at proceed
      exact proceed
  | putting message =>
      rw [task, canProceed_putting_iff delivers.holds (delivers.short sleeper message task),
        delivers.sameSize] at proceed
      have noneNeeded :=
        putters.none_needed idle (by simp [IsPutting]) ⟨message, task⟩ asleep
      have few := (@fits_iff size capacity unread message ?_).mp proceed
      · omega
      · intro other member
        rcases List.mem_cons.mp member with rfl | member
        · exact alike _ (proper.putting other task)
        · exact alike _ (peopled.unread other (by rwa [unreadEq]))
  | getting max =>
      have wants : Wants (system.threads sleeper).task max := by
        rw [task]
        rfl
      rw [canProceed_wants_iff delivers.holds wants] at proceed
      obtain ⟨message, inFront, short⟩ := proceed
      have wanted : max ∈ maxes := proper.wanting max wants
      have low : ∀ first ∈ unread.head?, ¬ High maxes first := by
        intro first isFirst isHigh
        obtain rfl : message = first := Option.some.inj (inFront.symm.trans isFirst)
        have := isHigh max wanted
        omega
      have noneNeeded :=
        (getters low).none_needed idle (by simp [IsGetting]) ⟨max, task⟩ asleep
      rw [List.length_eq_zero_iff.mp noneNeeded] at inFront
      simp at inFront
  | skipping max seq =>
      have wants : Wants (system.threads sleeper).task max := by
        rw [task]
        rfl
      rw [canProceed_wants_iff delivers.holds wants] at proceed
      obtain ⟨message, inFront, short⟩ := proceed
      obtain ⟨first, isFirst, isHigh⟩ := skippers sleeper max seq task
      obtain rfl : message = first := Option.some.inj (inFront.symm.trans isFirst)
      have wanted : max ∈ maxes := proper.wanting max wants
      have := isHigh max wanted
      omega

omit [DecidableEq Id] in
/-- Where no message that fits is taken, nobody asleep can go on. -/
theorem crowded_stuck
    {system : System Id}
    {unread : List (List UInt8)}
    (untaken : ∀ length ∈ lengths, ∀ max ∈ maxes, length + 16 ≤ size → max < length)
    (delivers : Delivers size system unread)
    (peopled : Peopled size lengths maxes system.room)
    (crowded : Crowded size system.room) :
    ¬ LostWakeup system := by
  rintro ⟨_, sleeper, asleep, proceed⟩
  have unreadEq : system.room.unread = unread := delivers.unread_eq
  have refused : ∀ {max}, Wants (system.threads sleeper).task max → False := by
    intro max wants
    rw [canProceed_wants_iff delivers.holds wants] at proceed
    obtain ⟨message, inFront, short⟩ := proceed
    obtain ⟨rest, front⟩ : ∃ rest, unread = message :: rest :=
      List.head?_eq_some_iff.mp inFront
    have inLengths := peopled.unread message (by rw [unreadEq, front]; simp)
    have fits := peopled.fits
    rw [unreadEq, front, extent_cons] at fits
    have := untaken _ inLengths max ((peopled.threads sleeper).wanting max wants) (by omega)
    omega
  cases task : (system.threads sleeper).task with
  | outside =>
      rw [task] at proceed
      exact proceed
  | putting message =>
      rw [task, canProceed_putting_iff delivers.holds (delivers.short sleeper message task),
        delivers.sameSize] at proceed
      have noRoom := crowded sleeper message task asleep
      rw [unreadEq] at noRoom
      omega
  | getting max => exact refused (by rw [task]; rfl)
  | skipping max seq => exact refused (by rw [task]; rfl)

/-- Where no message that fits is taken, no wake-up is lost. -/
theorem not_lostWakeup_of_untaken
    {pageSize : Nat}
    {queue : Queue}
    {labels : List (Label Id)}
    {system : System Id}
    (fresh : queueInit pageSize size = some queue)
    (untaken :
      ∀ length ∈ putLengths labels, ∀ max ∈ getMaxes labels, length + 16 ≤ size → max < length)
    (run : Run Step (System.initial queue) labels system) :
    ¬ LostWakeup system := by
  obtain ⟨⟨unread, delivers⟩, rooms⟩ := room_run fresh run
  have empty : Crowded size (Room.initial : Room Id) := by
    intro thread message putting
    simp [Room.initial] at putting
  obtain ⟨peopled, crowded⟩ :=
    room_invariant rooms (within_own labels) empty (crowded_step untaken)
  exact crowded_stuck untaken delivers peopled crowded

/-- Where the messages take equal room and the consumers agree, no wake-up is lost. -/
theorem not_lostWakeup_of_alike
    {pageSize : Nat}
    {queue : Queue}
    {labels : List (Label Id)}
    {system : System Id}
    (fresh : queueInit pageSize size = some queue)
    (alike :
      ∀ one ∈ putLengths labels, ∀ other ∈ putLengths labels,
        size / (one + 16) = size / (other + 16))
    (agree :
      ∀ length ∈ putLengths labels, ∀ one ∈ getMaxes labels, ∀ other ∈ getMaxes labels,
        length ≤ one → length ≤ other)
    (run : Run Step (System.initial queue) labels system) :
    ¬ LostWakeup system := by
  obtain ⟨⟨unread, delivers⟩, rooms⟩ := room_run fresh run
  obtain ⟨capacity, alike⟩ : ∃ capacity, ∀ length ∈ putLengths labels,
      size / (length + 16) = capacity := by
    by_cases some_length : (putLengths labels).Nonempty
    · obtain ⟨one, member⟩ := some_length
      exact ⟨size / (one + 16), fun length other => alike length other one member⟩
    · exact ⟨0, fun length member => absurd ⟨length, member⟩ some_length⟩
  have nobody : Balanced capacity (getMaxes labels) (Room.initial : Room Id) := by
    refine ⟨?_, ?_, ?_⟩
    · rintro ⟨thread, _, asleep⟩
      simp [Room.initial] at asleep
    · rintro _ ⟨thread, _, asleep⟩
      simp [Room.initial] at asleep
    · intro thread max seq skips
      simp [Room.initial] at skips
  obtain ⟨peopled, balanced⟩ :=
    room_invariant rooms (within_own labels) nobody (balanced_step alike agree)
  exact balanced_stuck alike delivers peopled balanced

/--
In every run in which no message that fits is taken, or the queue holds equally many of
every message and the consumers agree which messages they take, no wake-up is lost.
-/
theorem no_lost_wakeup
    (pageSize size : Nat)
    (queue : Queue)
    (labels : List (Label Id))
    (system : System Id)
    (fresh : queueInit pageSize size = some queue)
    (uniform : Uniform size (putLengths labels) (getMaxes labels))
    (run : Run Step (System.initial queue) labels system) :
    ¬ LostWakeup system := by
  rcases uniform with untaken | ⟨alike, agree⟩
  · exact not_lostWakeup_of_untaken fresh untaken run
  · exact not_lostWakeup_of_alike fresh alike agree run

/-- A producer wakes the one consumer that sleeps. -/
theorem no_lost_wakeup_onePage :
    ∃ system : System Bool,
      Run Step (System.initial onePage)
          [.call true (.getting 8), .enter true none, .call false (.putting [1, 2, 3]),
            .enter false (some true)]
          system ∧
        ¬ LostWakeup system := by
  have asleep := (Run.stop.extend
    (Step.call rfl (show 8 < words by decide) :
      Step (System.initial onePage) (.call true (.getting 8)) _)).extend
    (Step.wait rfl rfl : Step _ (.enter true none) _)
  have run := (asleep.extend
    (Step.call rfl (show 19 < words by decide) :
      Step _ (.call false (.putting [1, 2, 3])) _)).extend
    (Step.put rfl rfl (by rfl) : Step _ (.enter false (some true)) _)
  refine ⟨_, run, no_lost_wakeup 4096 4096 onePage _ _ rfl (Or.inr ⟨?_, ?_⟩) run⟩
  · rintro one ⟨thread, message, member, rfl⟩ other ⟨_, again, memberAgain, rfl⟩
    simp at member memberAgain
    rw [member.2, memberAgain.2]
  · rintro length _ one ⟨thread, member⟩ other ⟨_, memberAgain⟩ short
    simp at member memberAgain
    omega

/-- A wake-up that goes to a consumer that does not take the message is lost to the others. -/
theorem wakeup_lost
    {system : System Id}
    {message : List UInt8}
    {rest : List (List UInt8)}
    {woken other : Id}
    {own max : Nat}
    (delivers : Delivers size system (message :: rest))
    (running : system.threads woken = { task := .getting own, asleep := none })
    (tooLong : own < message.length)
    (sleeping : system.threads other = { task := .getting max, asleep := some .readable })
    (short : message.length ≤ max)
    (idle :
      ∀ thread,
        thread = woken ∨
          (system.threads thread).task = .outside ∨ (system.threads thread).asleep ≠ none) :
    ∃ after, Step system (.enter woken none) after ∧ LostWakeup after := by
  have waits : nextSection system.queue (.getting own) =
      some (.wait .writeable (.skipping own system.queue.headSeq), [(system.queue.head, 16)]) := by
    rcases delivers.holds.get own with ⟨empty, _⟩ | ⟨first, _, front, blocked | taken⟩
    · simp at empty
    · rw [nextSection, blocked.2]
    · obtain ⟨rfl, _⟩ := List.cons.inj front
      omega
  have different : other ≠ woken := by
    rintro rfl
    simp [running] at sleeping
  refine ⟨_, .wait running waits, ?_, other, ?_, ?_⟩
  · intro thread
    by_cases same : thread = woken
    · subst same
      exact Or.inr (by simp)
    · simp only [Function.update_of_ne same]
      exact (idle thread).resolve_left same
  · simp [Function.update_of_ne different, sleeping]
  · simp only [Function.update_of_ne different, sleeping]
    rw [canProceed_wants_iff delivers.holds (show Wants (.getting max) max from rfl)]
    exact ⟨message, rfl, short⟩

/--
Two consumers sleep on an empty queue.  A producer sends three bytes and wakes the one
that takes at most one byte; it goes back to sleep, and the other consumer, which takes
eight, sleeps on although the message is for it.
-/
theorem wakeup_taken_by_short_consumer :
    ∃ system : System (Option Bool),
      Reachable Step (System.initial onePage) system ∧ LostWakeup system := by
  have start :
      Reachable Step (System.initial onePage : System (Option Bool)) (System.initial onePage) :=
    .refl
  have short := (start.next
    (Step.call rfl (show 1 < words by decide) :
      Step _ (.call (some false) (.getting 1)) _)).next
    (Step.wait rfl rfl : Step _ (.enter (some false) none) _)
  have both := (short.next
    (Step.call rfl (show 8 < words by decide) :
      Step _ (.call (some true) (.getting 8)) _)).next
    (Step.wait rfl rfl : Step _ (.enter (some true) none) _)
  have sent := (both.next
    (Step.call rfl (show 19 < words by decide) :
      Step _ (.call none (.putting [1, 2, 3])) _)).next
    (Step.put rfl rfl (by rfl) : Step _ (.enter none (some (some false))) _)
  obtain ⟨unread, delivers⟩ :=
    sent.invariant ⟨[], @delivers_initial _ 4096 4096 onePage rfl⟩ delivers_step
  obtain rfl : [[1, 2, 3]] = unread := delivers.order
  obtain ⟨after, step, lost⟩ :=
    @wakeup_lost _ _ _ _ _ _ (some false) (some true) 1 8 delivers rfl (by decide) rfl (by decide)
      (by rintro (_ | _ | _) <;> decide)
  exact ⟨after, sent.next step, lost⟩

end Sysprog.MessageQueue
