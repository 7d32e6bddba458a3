import Sysprog.PairedSweep
import Sysprog.ProxyModel

namespace Sysprog.Proxy

open PairedSweep

/-!
# Closing what has timed out

`expire_connections` walks over the list with two pointers: the entry it looks at and the
next one, which it reads before it closes anything.  Closing takes the peer out of the
list too.  The walk is a sweep of the list, so it goes well exactly if a connection that
has timed out and its peer are separated.
-/

/-- The peer of a connection that is there. -/
def mateOf (conns : Nat → Option Conn) (id : Nat) : Option Nat :=
  (conns id).bind Conn.other

/-- A connection that is there has timed out. -/
def dueAt (conns : Nat → Option Conn) (now : Int) (id : Nat) : Bool :=
  (conns id).any fun conn => decide (conn.expire ≤ now)

theorem dueAt_eq_true
    {conns : Nat → Option Conn}
    {now : Int}
    {id : Nat} :
    dueAt conns now id = true ↔ ∃ conn, conns id = some conn ∧ conn.expire ≤ now := by
  simp [dueAt, Option.any_eq_true]

/-- What `expire_connections` returns with these entries left. -/
def nextTimeout (conns : Nat → Option Conn) (now : Int) : List Nat → Int
  | [] => -1
  | id :: _ =>
      match conns id with
      | some conn => toInt ((conn.expire - now) * 1000)
      | none => -1

/-- Of these connections exactly the entries are left, in the list and in memory. -/
structure Left (conns : Nat → Option Conn) (state : State) (entries : List Nat) : Prop where
  inList : state.expireList = entries
  inMemory : ∀ id, state.conns id = if id ∈ entries then conns id else none
  live : ∀ id ∈ entries, (conns id).isSome = true
  counted : (entries.length : Int) ≤ state.numEvents

section Walk

variable
  {conns : Nat → Option Conn}
  {state : State}
  {entries rest : List Nat}
  {id : Nat}
  {now : Int}

/-- `delconn` takes one connection out. -/
theorem Left.delconn
    (left : Left conns state entries)
    (distinct : entries.Nodup)
    (member : id ∈ entries) :
    ∃ after, delconn state id = some after ∧ Left conns after (entries.erase id) := by
  obtain ⟨conn, live⟩ := Option.isSome_iff_exists.mp (left.live id member)
  have present : state.conns id = some conn := by
    rw [left.inMemory, if_pos member, live]
  have size := List.length_erase_of_mem member
  have positive := List.length_pos_of_mem member
  have counted := left.counted
  simp only [Proxy.delconn, present, Option.bind_eq_bind, Option.bind_some]
  rw [if_pos (by omega)]
  refine ⟨_, rfl, ?_⟩
  constructor
  · rw [← left.inList]
  · intro other
    dsimp only
    by_cases same : other = id
    · simp [same, distinct.not_mem_erase]
    · rw [Function.update_of_ne same, left.inMemory]
      simp [List.mem_erase_of_ne same]
  · intro other inside
    exact left.live other (List.mem_of_mem_erase inside)
  · dsimp only
    omega

/-- `closeconn` of the first entry takes its peer out with it. -/
theorem Left.closeconn
    (left : Left conns state (id :: rest))
    (mated : Mated (mateOf conns))
    (sweepable : Sweepable (mateOf conns) (dueAt conns now) (id :: rest)) :
    ∃ after,
      closeconn state id = some after ∧
        Left conns after (rest.filter fun other => mateOf conns id ≠ some other) := by
  obtain ⟨conn, live⟩ := Option.isSome_iff_exists.mp (left.live id (by simp))
  have present : state.conns id = some conn := by
    rw [left.inMemory, if_pos (by simp), live]
  have isMate : mateOf conns id = conn.other := by
    simp [mateOf, live]
  simp only [Proxy.closeconn, present, Option.bind_eq_bind, Option.bind_some]
  cases shape : conn.other with
  | none =>
      obtain ⟨after, deleted, leftThere⟩ := left.delconn sweepable.nodup List.mem_cons_self
      refine ⟨after, deleted, ?_⟩
      rw [isMate, shape]
      simpa using leftThere
  | some peer =>
      rw [shape] at isMate
      have inside := sweepable.closed id (by simp) peer isMate
      have differs : peer ≠ id := by
        rintro rfl
        exact mated.apart peer isMate
      have inRest : peer ∈ rest := (List.mem_cons.mp inside).resolve_left differs
      obtain ⟨middle, first, leftMiddle⟩ := left.delconn sweepable.nodup inside
      rw [List.erase_cons_tail (by simpa using differs.symm)] at leftMiddle
      have smaller := sweepable.nodup.erase peer
      rw [List.erase_cons_tail (by simpa using differs.symm)] at smaller
      obtain ⟨after, second, leftAfter⟩ := leftMiddle.delconn smaller List.mem_cons_self
      refine ⟨after, by simp [first, second], ?_⟩
      rw [List.erase_cons_head, (List.nodup_cons.mp sweepable.nodup).2.erase_eq_filter] at leftAfter
      have same :
          (rest.filter fun other => mateOf conns id ≠ some other) = rest.filter (· != peer) := by
        refine List.filter_congr ?_
        intro other _
        by_cases equal : other = peer
        · simp [isMate, equal]
        · simp [isMate, equal, Ne.symm equal]
      rwa [same]

/-- The link forward from the first entry, or from the head if there is none. -/
theorem Left.following
    (left : Left conns state entries) :
    state.following entries.head? = some entries.tail.head? := by
  cases entries with
  | nil => simp [State.following, left.inList]
  | cons first rest =>
      obtain ⟨conn, live⟩ := Option.isSome_iff_exists.mp (left.live first (by simp))
      have present : state.conns first = some conn := by
        rw [left.inMemory, if_pos (by simp), live]
      simp [State.following, left.inList, present]

/-- The link forward from a connection that has been freed cannot be read. -/
theorem Left.following_gone
    (left : Left conns state entries)
    (gone : id ∉ entries) :
    state.following (some id) = none := by
  simp [State.following, left.inMemory, gone]

/-- The loop of `expire_connections` is a sweep. -/
theorem Left.expireLoop
    {rounds : Nat}
    (left : Left conns state entries)
    (mated : Mated (mateOf conns))
    (sweepable : Sweepable (mateOf conns) (dueAt conns now) entries) :
    match sweep (mateOf conns) (dueAt conns now) rounds entries with
    | none => expireLoop now rounds entries.head? entries.tail.head? state = none
    | some rest =>
        ∃ after,
          expireLoop now rounds entries.head? entries.tail.head? state =
              some (nextTimeout conns now rest, after) ∧
            Left conns after rest := by
  induction rounds generalizing state entries with
  | zero => rfl
  | succ rounds inductionHypothesis =>
      cases entries with
      | nil => exact ⟨state, rfl, left⟩
      | cons first rest =>
          obtain ⟨conn, live⟩ := Option.isSome_iff_exists.mp (left.live first (by simp))
          have present : state.conns first = some conn := by
            rw [left.inMemory, if_pos (by simp), live]
          have isDue : dueAt conns now first = decide (conn.expire ≤ now) := by
            simp [dueAt, live]
          simp only [sweep, isDue, decide_eq_true_eq, List.head?_cons, List.tail_cons,
            Proxy.expireLoop, present, Option.bind_eq_bind, Option.bind_some]
          by_cases timedOut : conn.expire ≤ now
          · have notLater : ¬ conn.expire > now := by omega
            obtain ⟨closed, close, leftThere⟩ := left.closeconn mated sweepable
            simp only [timedOut, if_true, notLater, if_false, close, Option.bind_some]
            by_cases next : mateOf conns first ≠ none ∧ mateOf conns first = rest.head?
            · rw [if_pos next]
              obtain ⟨peer, isMate⟩ := Option.ne_none_iff_exists'.mp next.1
              have gone : peer ∉ rest.filter fun other => mateOf conns first ≠ some other := by
                simp [isMate]
              simp [← next.2, isMate, leftThere.following_gone gone]
            · rw [if_neg next]
              have sameHead :
                  (rest.filter fun other => mateOf conns first ≠ some other).head? =
                    rest.head? := by
                cases rest with
                | nil => rfl
                | cons second others =>
                    have kept : mateOf conns first ≠ some second := by
                      intro isMate
                      exact next ⟨by simp [isMate], by simp [isMate]⟩
                    simp [kept]
              have following := leftThere.following
              rw [sameHead] at following
              have onward := inductionHypothesis leftThere (sweepable.onward mated)
              rw [sameHead] at onward
              simpa only [following, Option.bind_some] using onward
          · have later : conn.expire > now := by omega
            simp only [timedOut, if_false, later, if_true]
            exact ⟨state, by simp [nextTimeout, live], left⟩

end Walk

/-! ## The result of the walk -/

/--
The expire list as `newconn` and `touch_conn` keep it while the time does not go back: all
connections are in it, the earlier ones first, and peers name each other.
-/
structure ListKept (state : State) : Prop where
  nodup : state.expireList.Nodup
  live : ∀ id, id ∈ state.expireList ↔ (state.conns id).isSome = true
  ordered :
    state.expireList.Pairwise fun first second =>
      ∀ earlier later,
        state.conns first = some earlier →
        state.conns second = some later →
        earlier.expire ≤ later.expire
  mated : Mated (mateOf state.conns)
  counted : (state.expireList.length : Int) ≤ state.numEvents

/-- The connection or its peer has timed out. -/
def Doomed (state : State) (now : Int) (id : Nat) : Prop :=
  doomed (mateOf state.conns) (dueAt state.conns now) id = true

/-- 1000 times the remaining seconds of the earliest connection, or -1 without one. -/
def NextTimeout (state : State) (now result : Int) : Prop :=
  (result = -1 ∧ ∀ id, state.conns id = none) ∨
    ∃ id conn,
      state.conns id = some conn ∧
        (∀ other later, state.conns other = some later → conn.expire ≤ later.expire) ∧
        result = 1000 * (conn.expire - now)

/-- All connections visited are live, the right ones are closed, and the result is right. -/
def ExpiresExactly (state : State) (now : Int) : Prop :=
  ∃ result after,
    expireConnections state now = some (result, after) ∧
      (∀ id, (Doomed state now id → after.conns id = none) ∧
        (¬ Doomed state now id → after.conns id = state.conns id)) ∧
      NextTimeout after now result

/-- Between a connection that has timed out and its peer one is left that is not closed yet. -/
def PeersSeparated (state : State) (now : Int) : Prop :=
  Separated (mateOf state.conns) (dueAt state.conns now) state.expireList

/-- The milliseconds of the earliest connection that is left fit into an `int`. -/
def RemainingFits (state : State) (now : Int) : Prop :=
  ∀ id conn,
    state.conns id = some conn →
    ¬ Doomed state now id →
    (∀ other later,
      state.conns other = some later →
      ¬ Doomed state now other →
      conn.expire ≤ later.expire) →
    1000 * (conn.expire - now) < 2 ^ 31

/-- A value that is not negative is returned as it is exactly if it fits. -/
theorem toInt_eq_iff
    {value : Int}
    (nonneg : 0 ≤ value) :
    toInt value = value ↔ value < 2 ^ 31 := by
  simp only [toInt, Int.bmod]
  split <;> omega

section Kept

variable {state : State} {now : Int}

/-- All connections of a list that is kept are left before the walk. -/
theorem ListKept.left (kept : ListKept state) : Left state.conns state state.expireList where
  inList := rfl
  inMemory := by
    intro id
    split
    · rfl
    · rename_i outside
      rw [kept.live] at outside
      simpa using outside
  live := fun id member => (kept.live id).mp member
  counted := kept.counted

/-- A list that is kept can be swept. -/
theorem ListKept.sweepable (kept : ListKept state) :
    Sweepable (mateOf state.conns) (dueAt state.conns now) state.expireList where
  nodup := kept.nodup
  ordered := by
    refine kept.ordered.imp_of_mem ?_
    intro first second firstMember _ earlierFirst isDue
    obtain ⟨earlier, live⟩ := Option.isSome_iff_exists.mp ((kept.live first).mp firstMember)
    obtain ⟨later, live', timedOut⟩ := dueAt_eq_true.mp isDue
    exact dueAt_eq_true.mpr
      ⟨earlier, live, Int.le_trans (earlierFirst earlier later live live') timedOut⟩
  closed := by
    intro x _ y isMate
    have back := kept.mated.symmetric x y isMate
    rw [kept.live]
    obtain ⟨conn, live, _⟩ := Option.bind_eq_some_iff.mp back
    simp [live]

/-- The entries that are left. -/
def survivors (state : State) (now : Int) : List Nat :=
  state.expireList.filter fun id => !doomed (mateOf state.conns) (dueAt state.conns now) id

/-- `expire_connections` is the walk over the whole list. -/
theorem ListKept.expireConnections (kept : ListKept state) :
    (PeersSeparated state now →
        ∃ after,
          expireConnections state now =
              some (nextTimeout state.conns now (survivors state now), after) ∧
            Left state.conns after (survivors state now)) ∧
      (¬ PeersSeparated state now → expireConnections state now = none) := by
  have first : state.following none = some state.expireList.head? := rfl
  have enough : state.expireList.length < state.expireList.length + 1 := Nat.lt_succ_self _
  have walked := @Left.expireLoop _ _ _ now (state.expireList.length + 1) kept.left kept.mated
    kept.sweepable
  simp only [Proxy.expireConnections, first, kept.left.following, Option.bind_eq_bind,
    Option.bind_some]
  constructor
  · intro separated
    rwa [sweep_of_separated kept.mated kept.sweepable separated enough] at walked
  · intro close
    rwa [sweep_of_not_separated kept.mated kept.sweepable close enough] at walked

/-- Who is left is live and not doomed. -/
theorem ListKept.mem_survivors
    {id : Nat}
    (kept : ListKept state) :
    id ∈ survivors state now ↔ (state.conns id).isSome = true ∧ ¬ Doomed state now id := by
  rw [survivors, List.mem_filter, kept.live]
  simp [Doomed]

/-- The first one that is left is the earliest. -/
theorem ListKept.earliest
    {id other : Nat}
    {rest : List Nat}
    {conn later : Conn}
    (kept : ListKept state)
    (shape : survivors state now = id :: rest)
    (live : state.conns id = some conn)
    (otherLive : state.conns other = some later)
    (stays : ¬ Doomed state now other) :
    conn.expire ≤ later.expire := by
  have member : other ∈ survivors state now := by
    rw [kept.mem_survivors]
    exact ⟨by simp [otherLive], stays⟩
  have ordered := kept.ordered.filter fun id =>
    !doomed (mateOf state.conns) (dueAt state.conns now) id
  rw [← survivors, shape] at ordered
  rw [shape] at member
  rcases List.mem_cons.mp member with rfl | behind
  · obtain rfl := Option.some.inj (live.symm.trans otherLive)
    exact Int.le_refl _
  · exact (List.pairwise_cons.mp ordered).1 other behind conn later live otherLive

/-- What the walk leaves, in memory and in its result. -/
theorem ListKept.left_survivors
    {after : State}
    (kept : ListKept state)
    (left : Left state.conns after (survivors state now))
    (id : Nat) :
    (Doomed state now id → after.conns id = none) ∧
      (¬ Doomed state now id → after.conns id = state.conns id) := by
  have inside : id ∈ survivors state now ↔
      (state.conns id).isSome = true ∧ ¬ Doomed state now id :=
    kept.mem_survivors
  rw [left.inMemory]
  constructor
  · intro isDoomed
    exact if_neg fun member => (inside.mp member).2 isDoomed
  · intro stays
    cases live : state.conns id with
    | none => exact ite_self none
    | some conn => exact if_pos (inside.mpr ⟨by simp [live], stays⟩)

/-- A connection that is left has time left. -/
theorem ListKept.remaining
    {id : Nat}
    {conn : Conn}
    (live : state.conns id = some conn)
    (stays : ¬ Doomed state now id) :
    0 ≤ (conn.expire - now) * 1000 := by
  have notDue : ¬ dueAt state.conns now id = true := by
    intro isDue
    exact stays (by simp [Doomed, doomed, isDue])
  rw [dueAt_eq_true] at notDue
  have later : ¬ conn.expire ≤ now := fun timedOut => notDue ⟨conn, live, timedOut⟩
  omega

/-- What is returned is not cut off, so the remaining milliseconds fit. -/
theorem ListKept.fits_of_exactly
    (kept : ListKept state)
    (separated : PeersSeparated state now)
    (exactly : ExpiresExactly state now) :
    RemainingFits state now := by
  obtain ⟨result, after, expired, closed, next⟩ := exactly
  obtain ⟨after', expired', left⟩ := kept.expireConnections.1 separated
  obtain ⟨rfl, rfl⟩ : result = nextTimeout state.conns now (survivors state now) ∧
      after = after' := by
    simpa using expired.symm.trans expired'
  intro id conn live stays earliest
  have nonneg := ListKept.remaining live stays
  have member : id ∈ survivors state now :=
    kept.mem_survivors.mpr ⟨by simp [live], stays⟩
  obtain ⟨first, rest, shape⟩ := List.exists_cons_of_ne_nil (List.ne_nil_of_mem member)
  have firstIn : first ∈ survivors state now := by
    rw [shape]
    exact List.mem_cons_self
  obtain ⟨firstLive, firstStays⟩ := kept.mem_survivors.mp firstIn
  obtain ⟨head, headLive⟩ := Option.isSome_iff_exists.mp firstLive
  have same : head.expire = conn.expire :=
    Int.le_antisymm (kept.earliest shape headLive live stays)
      (earliest first head headLive firstStays)
  have returned :
      nextTimeout state.conns now (survivors state now) =
        toInt ((conn.expire - now) * 1000) := by
    simp [shape, nextTimeout, headLive, same]
  have stillLive := ((closed id).2 stays).trans live
  rcases next with ⟨_, noneLeft⟩ | ⟨least, leastConn, leastLive, leastFirst, value⟩
  · simp [noneLeft id] at stillLive
  · have leastStays : ¬ Doomed state now least := by
      intro isDoomed
      simp [(closed least).1 isDoomed] at leastLive
    have leastSame : leastConn.expire = conn.expire :=
      Int.le_antisymm (leastFirst id conn stillLive)
        (earliest least leastConn (((closed least).2 leastStays).symm.trans leastLive)
          leastStays)
    have unchanged : toInt ((conn.expire - now) * 1000) = (conn.expire - now) * 1000 := by
      rw [← returned, value, leastSame, Int.mul_comm]
    rw [Int.mul_comm]
    exact (toInt_eq_iff nonneg).mp unchanged

/-- What is left is what was not doomed, and the first of it is the earliest. -/
theorem ListKept.exactly_of_fits
    (kept : ListKept state)
    (separated : PeersSeparated state now)
    (fits : RemainingFits state now) :
    ExpiresExactly state now := by
  obtain ⟨after, expired, left⟩ := kept.expireConnections.1 separated
  have closed := kept.left_survivors left
  refine ⟨_, after, expired, closed, ?_⟩
  cases shape : survivors state now with
  | nil =>
      refine Or.inl ⟨rfl, ?_⟩
      intro id
      rw [left.inMemory, shape]
      exact if_neg List.not_mem_nil
  | cons first rest =>
      have firstIn : first ∈ survivors state now := by
        rw [shape]
        exact List.mem_cons_self
      obtain ⟨firstLive, firstStays⟩ := kept.mem_survivors.mp firstIn
      obtain ⟨head, headLive⟩ := Option.isSome_iff_exists.mp firstLive
      refine Or.inr ⟨first, head, ((closed first).2 firstStays).trans headLive, ?_, ?_⟩
      · intro other later otherLive
        have stays : ¬ Doomed state now other := by
          intro isDoomed
          simp [(closed other).1 isDoomed] at otherLive
        exact kept.earliest shape headLive
          (((closed other).2 stays).symm.trans otherLive) stays
      · have small := fits first head headLive firstStays fun other later live stays =>
          kept.earliest shape headLive live stays
        have nonneg := ListKept.remaining headLive firstStays
        rw [Int.mul_comm] at small
        simp only [nextTimeout, headLive, (toInt_eq_iff nonneg).mpr small, Int.mul_comm]

/--
`expire_connections` does what it should exactly if between a connection that has timed
out and its peer there is one in the list whose own peer does not come earlier, and the
remaining milliseconds fit into an `int`.
-/
theorem expires_exactly_iff
    (kept : ListKept state) :
    ExpiresExactly state now ↔ PeersSeparated state now ∧ RemainingFits state now := by
  constructor
  · intro exactly
    have separated : PeersSeparated state now := by
      by_contra close
      obtain ⟨_, _, expired, _⟩ := exactly
      simp [kept.expireConnections.2 close] at expired
    exact ⟨separated, kept.fits_of_exactly separated exactly⟩
  · rintro ⟨separated, fits⟩
    exact kept.exactly_of_fits separated fits

end Kept

/-- Connections 0 and 2 are peers, and 1, which has none, times out later than 0. -/
def sampleKept : State where
  conns
    | 0 => some { other := some 2, buf := { bytes := 0, content := [] }, expire := 0 }
    | 1 => some { other := none, buf := { bytes := 0, content := [] }, expire := 7 }
    | 2 => some { other := some 0, buf := { bytes := 0, content := [] }, expire := 8 }
    | _ => none
  expireList := [0, 1, 2]
  numEvents := 4
  allocated := 3
  received := fun _ => []
  delivered := fun _ => []
  log := []

theorem sampleKept_expires : ListKept sampleKept ∧ ExpiresExactly sampleKept 5 := by
  have kept : ListKept sampleKept :=
    { nodup := by decide
      live := by
        rintro (_ | _ | _ | _) <;> simp [sampleKept]
      ordered := by simp [sampleKept]
      mated :=
        { symmetric := by
            rintro (_ | _ | _ | _) y isMate <;> simp_all [mateOf, sampleKept] <;> simp [← isMate]
          apart := by
            rintro (_ | _ | _ | _) <;> simp [mateOf, sampleKept] }
      counted := by decide }
  refine ⟨kept, (expires_exactly_iff kept).mpr ⟨?_, ?_⟩⟩
  · intro front entry middle other back shape isDue isMate
    cases front with
    | nil =>
        obtain ⟨rfl, tail⟩ := List.cons.inj shape
        obtain rfl : 2 = other := by simpa [mateOf, sampleKept] using isMate
        cases middle with
        | nil => simp at tail
        | cons between _ => exact ⟨between, List.mem_cons_self, by simp⟩
    | cons first front =>
        have member : entry ∈ [1, 2] := by
          rw [(List.cons.inj shape).2]
          simp
        simp only [List.mem_cons, List.not_mem_nil, or_false] at member
        rcases member with rfl | rfl <;> simp [dueAt, sampleKept] at isDue
  · intro id conn live _ _
    match id with
    | 0 | 1 | 2 =>
        obtain rfl := Option.some.inj live
        decide
    | _ + 3 => simp [sampleKept] at live

/-- Two peers next to each other have timed out. -/
def idlePair : State where
  conns
    | 0 => some { other := some 1, buf := { bytes := 0, content := [] }, expire := 5 }
    | 1 => some { other := some 0, buf := { bytes := 0, content := [] }, expire := 5 }
    | _ => none
  expireList := [0, 1]
  numEvents := 3
  allocated := 2
  received := fun _ => []
  delivered := fun _ => []
  log := []

/-- Closing the first frees the entry that is visited next. -/
theorem idlePair_visits_freed :
    ListKept idlePair ∧ expireConnections idlePair 6 = none ∧ ¬ ExpiresExactly idlePair 6 := by
  have fault : expireConnections idlePair 6 = none := rfl
  refine ⟨?_, fault, fun ⟨_, _, expired, _⟩ => by simp [fault] at expired⟩
  refine
    { nodup := by decide
      live := by
        rintro (_ | _ | _) <;> simp [idlePair]
      ordered := by simp [idlePair]
      mated :=
        { symmetric := by
            rintro (_ | _ | _) y isMate <;> simp_all [mateOf, idlePair] <;> simp [← isMate]
          apart := by
            rintro (_ | _ | _) <;> simp [mateOf, idlePair] }
      counted := by decide }

end Sysprog.Proxy
