import Sysprog.ProxyTransfers

namespace Sysprog.Proxy

open Execution

/-!
# The two ends of a connection

Two connections that forward for each other are made peers together and are closed
together, except where writing to a socket that became writable fails: then only the one
end is closed.  What each function does to the peers is said once.
-/

/-! ## What the functions do to the peers -/

/-- The peer of a connection: of one that is not there, of one without a peer, or its peer. -/
def State.peer (state : State) (id : Nat) : Option (Option Nat) :=
  (state.conns id).map Conn.other

/-- Nothing is opened, closed or paired. -/
structure SamePeers (before after : State) : Prop where
  peer : after.peer = before.peer
  allocated : after.allocated = before.allocated

section Effects

variable {memory : Nat → Conn} {before after : State} {id : Nat} {now : Int} {setup : Setup}

/-- Assigning to a connection without changing its peer. -/
theorem peer_setConn
    {former latter : Conn}
    (live : before.conns id = some former)
    (same : latter.other = former.other) :
    (before.setConn id latter).peer = before.peer := by
  funext cell
  by_cases atId : cell = id
  · simp [State.peer, State.setConn, atId, live, same]
  · simp [State.peer, State.setConn, atId]

/-- A call of `move_data_in` on a connection that is there. -/
theorem fill_spec
    {results : List (Splice (List UInt8))}
    {result : Bool}
    (called : fill before id results = some (result, after)) :
    ∃ conn transfer,
      before.conns id = some conn ∧
        moveDataIn conn.buf results = some transfer ∧
        result = transfer.result ∧
        after = before.afterIn id conn transfer := by
  simp only [fill, Option.bind_eq_bind, Option.bind_eq_some_iff] at called
  obtain ⟨conn, live, transfer, moved, same⟩ := called
  simp only [Option.pure_def, Option.some.injEq, Prod.mk.injEq] at same
  obtain ⟨rfl, rfl⟩ := same
  exact ⟨conn, transfer, live, moved, rfl, rfl⟩

/-- A call of `move_data_out` on a connection that is there, to one that is there. -/
theorem drain_spec
    {target : Nat}
    {results : List (Splice Nat)}
    {result : Bool}
    (called : drain before id target results = some (result, after)) :
    ∃ conn transfer,
      before.conns id = some conn ∧
        (before.conns target).isSome = true ∧
        moveDataOut conn.buf results = some transfer ∧
        result = transfer.result ∧
        after = before.afterOut id conn transfer := by
  simp only [drain, Option.bind_eq_bind, Option.bind_eq_some_iff] at called
  obtain ⟨conn, live, other, otherLive, transfer, moved, same⟩ := called
  simp only [Option.pure_def, Option.some.injEq, Prod.mk.injEq] at same
  obtain ⟨rfl, rfl⟩ := same
  exact ⟨conn, transfer, live, by simp [otherLive], moved, rfl, rfl⟩

/-- `move_data_in` keeps all peers. -/
theorem fill_same
    {results : List (Splice (List UInt8))}
    {result : Bool}
    (called : fill before id results = some (result, after)) :
    SamePeers before after := by
  obtain ⟨conn, transfer, live, _, _, rfl⟩ := fill_spec called
  exact ⟨peer_setConn live rfl, rfl⟩

/-- `move_data_out` keeps all peers. -/
theorem drain_same
    {target : Nat}
    {results : List (Splice Nat)}
    {result : Bool}
    (called : drain before id target results = some (result, after)) :
    SamePeers before after := by
  obtain ⟨conn, transfer, live, _, _, _, rfl⟩ := drain_spec called
  exact ⟨peer_setConn live rfl, rfl⟩

/-- `touch_conn` keeps all peers. -/
theorem touchConn_spec (called : touchConn before id now = some after) :
    SamePeers before after := by
  simp only [touchConn, Option.bind_eq_bind, Option.bind_eq_some_iff] at called
  obtain ⟨conn, live, same⟩ := called
  simp only [Option.pure_def, Option.some.injEq] at same
  obtain rfl := same
  exact ⟨peer_setConn live rfl, rfl⟩

/-- `delconn` removes one connection. -/
theorem delconn_spec (called : delconn before id = some after) :
    (before.peer id).isSome = true ∧
      after.peer = Function.update before.peer id none ∧
      after.allocated = before.allocated := by
  simp only [delconn, Option.bind_eq_bind, Option.bind_eq_some_iff] at called
  obtain ⟨conn, live, deleted⟩ := called
  split at deleted
  · obtain rfl := Option.some.inj deleted
    refine ⟨by simp [State.peer, live], ?_, rfl⟩
    funext cell
    by_cases atId : cell = id
    · simp [State.peer, atId]
    · simp [State.peer, atId]
  · simp at deleted

/-- The peers that are left when a connection is closed. -/
def closePeers (peers : Nat → Option (Option Nat)) (id : Nat) (other : Option Nat) :
    Nat → Option (Option Nat) :=
  match other with
  | some other => Function.update (Function.update peers other none) id none
  | none => Function.update peers id none

/-- `closeconn` removes a connection and its peer. -/
theorem closeconn_spec (called : closeconn before id = some after) :
    ∃ other,
      before.peer id = some other ∧
        (∀ peer, other = some peer → (before.peer peer).isSome = true ∧ peer ≠ id) ∧
        after.peer = closePeers before.peer id other ∧
        after.allocated = before.allocated := by
  simp only [closeconn, Option.bind_eq_bind, Option.bind_eq_some_iff] at called
  obtain ⟨conn, live, deleted⟩ := called
  refine ⟨conn.other, by simp [State.peer, live], ?_⟩
  cases shape : conn.other with
  | none =>
      rw [shape] at deleted
      obtain ⟨_, peers, same⟩ := delconn_spec deleted
      exact ⟨nofun, peers, same⟩
  | some other =>
      rw [shape] at deleted
      obtain ⟨middle, first, second⟩ := Option.bind_eq_some_iff.mp deleted
      obtain ⟨present, peers, same⟩ := delconn_spec first
      obtain ⟨stillThere, peers', same'⟩ := delconn_spec second
      refine ⟨?_, ?_, same'.trans same⟩
      · rintro peer ⟨⟩
        refine ⟨present, ?_⟩
        rintro rfl
        simp [peers] at stillThere
      · rw [peers', peers]
        rfl

/-- `newconn` adds a connection, with whatever peer its memory held. -/
theorem newconn_spec
    {new : Nat}
    (called : newconn memory before setup now = some (new, after)) :
    new = before.allocated ∧
      after.peer = Function.update before.peer new (some (memory new).other) ∧
      after.allocated = before.allocated + 1 := by
  simp only [newconn] at called
  split at called
  · simp only [Option.some.injEq, Prod.mk.injEq] at called
    obtain ⟨rfl, rfl⟩ := called
    refine ⟨rfl, ?_, rfl⟩
    funext cell
    by_cases atNew : cell = before.allocated
    · simp [State.peer, State.setConn, atNew]
    · simp [State.peer, State.setConn, atNew]
  · simp at called

/-- The peers after a connection was opened for another one. -/
def openPeers (peers : Nat → Option (Option Nat)) (id new : Nat) : Nat → Option (Option Nat) :=
  Function.update (Function.update peers new (some (some id))) id (some (some new))

/-- `openconn` adds a connection and pairs it, or returns null. -/
theorem openconn_spec
    {result : Option Nat}
    (older : id ≠ before.allocated)
    (called : openconn memory before setup id now = some (result, after)) :
    (result = none ∧ after = before) ∨
      (result = some before.allocated ∧
        after.peer = openPeers before.peer id before.allocated ∧
        after.allocated = before.allocated + 1) := by
  simp only [openconn] at called
  split at called
  · simp only [Option.bind_eq_bind, Option.bind_eq_some_iff] at called
    obtain ⟨⟨new, middle⟩, made, conn, live, former, formerLive, same⟩ := called
    simp only [Option.pure_def, Option.some.injEq, Prod.mk.injEq] at same
    obtain ⟨rfl, rfl⟩ := same
    obtain ⟨rfl, peers, allocated⟩ := newconn_spec made
    refine Or.inr ⟨rfl, ?_, allocated⟩
    funext cell
    have atCell := congrFun peers cell
    by_cases atId : cell = id
    · simp [State.peer, State.setConn, openPeers, atId]
    · by_cases atNew : cell = before.allocated
      · simp [State.peer, State.setConn, openPeers, atNew, Ne.symm older]
      · simpa [State.peer, State.setConn, openPeers, atId, atNew] using atCell
  · simp only [Option.some.injEq, Prod.mk.injEq] at called
    obtain ⟨rfl, rfl⟩ := called
    exact Or.inl ⟨rfl, rfl⟩

/-! ## What an event does -/

/-- With `other` known, both directions of the transfer go well, or the pair is closed. -/
theorem forwardInput_cases
    {other result : Option Nat}
    {ready : Ready}
    (called : forwardInput before now id other ready = some (result, after)) :
    ∃ peer input filled output drained,
      other = some peer ∧
        fill before id ready.inputs = some (input, filled) ∧
        drain filled id peer ready.outputs = some (output, drained) ∧
        ((input = true ∧ output = true ∧ result = some peer ∧
            touchConn drained peer now = some after) ∨
          ((input && output) = false ∧ result = none ∧ closeconn drained id = some after)) := by
  simp only [forwardInput, Option.bind_eq_bind, Option.bind_eq_some_iff] at called
  obtain ⟨⟨input, filled⟩, filling, peer, rfl, ⟨output, drained⟩, draining, called⟩ := called
  refine ⟨peer, input, filled, output, drained, rfl, filling, draining, ?_⟩
  dsimp only at called
  split at called
  · rename_i both
    obtain ⟨touched, touch, same⟩ := Option.bind_eq_some_iff.mp called
    simp only [Option.pure_def, Option.some.injEq, Prod.mk.injEq] at same
    obtain ⟨rfl, rfl⟩ := same
    obtain ⟨inputGood, outputGood⟩ := Bool.and_eq_true_iff.mp both
    exact Or.inl ⟨inputGood, outputGood, rfl, touch⟩
  · rename_i notBoth
    obtain ⟨closed, close, same⟩ := Option.bind_eq_some_iff.mp called
    simp only [Option.pure_def, Option.some.injEq, Prod.mk.injEq] at same
    obtain ⟨rfl, rfl⟩ := same
    exact Or.inr ⟨Bool.eq_false_iff.mpr notBoth, rfl, close⟩

/-- Behind `EPOLLIN` the connection is touched, and given a peer if it has none. -/
theorem handleInput_cases
    {result : Option Nat}
    {ready : Ready}
    (called : handleInput memory before now id ready = some (result, after)) :
    ∃ conn touched other paired,
      before.conns id = some conn ∧
        touchConn before id now = some touched ∧
        ((∃ peer, conn.other = some peer ∧ other = some peer ∧ paired = touched) ∨
          (conn.other = none ∧
            openconn memory touched ready.setup id now = some (other, paired))) ∧
        forwardInput paired now id other ready = some (result, after) := by
  simp only [handleInput, Option.bind_eq_bind, Option.bind_eq_some_iff] at called
  obtain ⟨conn, live, touched, touch, called⟩ := called
  cases shape : conn.other with
  | some peer =>
      rw [shape] at called
      exact ⟨conn, touched, some peer, touched, live, touch, Or.inl ⟨peer, shape, rfl, rfl⟩, called⟩
  | none =>
      rw [shape] at called
      obtain ⟨⟨other, paired⟩, opened, forwarded⟩ := Option.bind_eq_some_iff.mp called
      exact ⟨conn, touched, other, paired, live, touch, Or.inr ⟨shape, opened⟩, forwarded⟩

/-- Asking for more input may end with closing the pair. -/
theorem refill_cases
    {ready : Ready}
    (called : refill before id ready = some after) :
    (before.peer id).isSome = true ∧
      ((¬ 0 < ready.pending ∧ after = before) ∨
        ∃ input filled,
          0 < ready.pending ∧
            fill before id ready.backInputs = some (input, filled) ∧
            ((input = true ∧ after = filled) ∨
              (input = false ∧ closeconn filled id = some after))) := by
  simp only [refill, Option.bind_eq_bind, Option.bind_eq_some_iff] at called
  obtain ⟨conn, live, called⟩ := called
  refine ⟨by simp [State.peer, live], ?_⟩
  split at called
  · rename_i pending
    obtain ⟨⟨input, filled⟩, filling, ended⟩ := Option.bind_eq_some_iff.mp called
    refine Or.inr ⟨input, filled, pending, filling, ?_⟩
    cases input with
    | true => exact Or.inl ⟨rfl, (Option.some.inj ended).symm⟩
    | false => exact Or.inr ⟨rfl, ended⟩
  · rename_i nothing
    exact Or.inl ⟨nothing, (Option.some.inj called).symm⟩

/-- Behind `EPOLLOUT` the connection is touched, or closed if it cannot be written to. -/
theorem handleOutput_cases
    {other : Nat}
    {ready : Ready}
    (called : handleOutput before now id other ready = some after) :
    ∃ output drained middle,
      drain before other id ready.backOutputs = some (output, drained) ∧
        ((output = true ∧ touchConn drained id now = some middle) ∨
          (output = false ∧ delconn drained id = some middle)) ∧
        refill middle other ready = some after := by
  simp only [handleOutput, Option.bind_eq_bind, Option.bind_eq_some_iff] at called
  obtain ⟨⟨output, drained⟩, draining, called⟩ := called
  cases output with
  | true =>
      obtain ⟨middle, touch, refilled⟩ := Option.bind_eq_some_iff.mp called
      exact ⟨true, drained, middle, draining, Or.inl ⟨rfl, touch⟩, refilled⟩
  | false =>
      obtain ⟨middle, deleted, refilled⟩ := Option.bind_eq_some_iff.mp called
      exact ⟨false, drained, middle, draining, Or.inr ⟨rfl, deleted⟩, refilled⟩

/-- An event for a connection closes the pair, or goes through the two parts of `main`. -/
theorem handleConn_cases
    {ready : Ready}
    (called : handleConn memory now before id ready = some after) :
    ∃ conn,
      before.conns id = some conn ∧
        ((ready.errOrHup = true ∧ closeconn before id = some after) ∨
          (ready.errOrHup = false ∧
            ∃ other middle,
              ((ready.epollin = true ∧
                  handleInput memory before now id ready = some (other, middle)) ∨
                (ready.epollin = false ∧ other = conn.other ∧ middle = before)) ∧
              ((∃ peer, other = some peer ∧ ready.epollout = true ∧
                  handleOutput middle now id peer ready = some after) ∨
                ((other = none ∨ ready.epollout = false) ∧ after = middle)))) := by
  have rest {other : Option Nat} {middle : State}
      (onward : afterInput middle now id other ready = some after) :
      (∃ peer, other = some peer ∧ ready.epollout = true ∧
          handleOutput middle now id peer ready = some after) ∨
        ((other = none ∨ ready.epollout = false) ∧ after = middle) := by
    cases other with
    | none => exact Or.inr ⟨Or.inl rfl, (Option.some.inj onward).symm⟩
    | some peer =>
        cases writable : ready.epollout with
        | true => exact Or.inl ⟨peer, rfl, rfl, by simpa [afterInput, writable] using onward⟩
        | false =>
            refine Or.inr ⟨Or.inr rfl, ?_⟩
            simpa [afterInput, writable] using onward.symm
  simp only [handleConn, Option.bind_eq_bind, Option.bind_eq_some_iff] at called
  obtain ⟨conn, live, called⟩ := called
  refine ⟨conn, live, ?_⟩
  cases bad : ready.errOrHup with
  | true =>
      rw [bad] at called
      exact Or.inl ⟨rfl, called⟩
  | false =>
      rw [bad] at called
      refine Or.inr ⟨rfl, ?_⟩
      cases readable : ready.epollin with
      | true =>
          rw [readable] at called
          obtain ⟨⟨other, middle⟩, input, onward⟩ := Option.bind_eq_some_iff.mp called
          exact ⟨other, middle, Or.inl ⟨rfl, input⟩, rest onward⟩
      | false =>
          rw [readable] at called
          exact ⟨conn.other, before, Or.inr ⟨rfl, rfl, rfl⟩, rest called⟩

end Effects

/-! ## Peers come in pairs -/

/-- Peers name each other, and only connections that were made are there. -/
structure Paired (state : State) : Prop where
  symmetric : ∀ c d, state.peer c = some (some d) → state.peer d = some (some c)
  numbered : ∀ c, (state.peer c).isSome = true → c < state.allocated

section Pairs

variable {before after : State} {id : Nat} {now : Int}

/-- At the start there are no connections. -/
theorem paired_initial : Paired State.initial where
  symmetric := by simp [State.peer, State.initial]
  numbered := by simp [State.peer, State.initial]

/-- What keeps the peers keeps the pairs. -/
theorem Paired.congr
    (paired : Paired before)
    (same : SamePeers before after) :
    Paired after where
  symmetric := by
    rw [same.peer]
    exact paired.symmetric
  numbered := by
    rw [same.peer, same.allocated]
    exact paired.numbered

/-- A live connection is older than the next one. -/
theorem Paired.older
    {other : Option Nat}
    (paired : Paired before)
    (live : before.peer id = some other) :
    id ≠ before.allocated :=
  Nat.ne_of_lt (paired.numbered id (by simp [live]))

/-- `closeconn` closes both ends of a pair. -/
theorem Paired.closeconn
    (paired : Paired before)
    (called : closeconn before id = some after) :
    Paired after := by
  obtain ⟨other, own, _, peers, allocated⟩ := closeconn_spec called
  have kept {c : Nat} {value : Option Nat}
      (present : after.peer c = some value) :
      before.peer c = some value ∧ c ≠ id ∧ other ≠ some c := by
    rw [peers] at present
    cases other with
    | none =>
        by_cases atId : c = id
        · simp [closePeers, atId] at present
        · simpa [closePeers, atId] using present
    | some peer =>
        by_cases atId : c = id
        · simp [closePeers, atId] at present
        · by_cases atPeer : c = peer
          · simp [closePeers, atPeer, Function.update_apply] at present
          · simpa [closePeers, atId, atPeer, Ne.symm atPeer] using present
  constructor
  · intro c d present
    obtain ⟨former, notId, notOther⟩ := kept present
    have back := paired.symmetric c d former
    have apart : d ≠ id := by
      rintro rfl
      rw [own] at back
      exact notOther (Option.some.inj back)
    have notPeer : other ≠ some d := by
      rintro rfl
      have again := paired.symmetric id d own
      rw [back] at again
      exact notId (Option.some.inj (Option.some.inj again))
    rw [peers]
    cases other with
    | none => simpa [closePeers, apart] using back
    | some peer =>
        have differs : d ≠ peer := by
          rintro rfl
          exact notPeer rfl
        simpa [closePeers, apart, differs] using back
  · intro c live
    obtain ⟨value, present⟩ := Option.isSome_iff_exists.mp live
    rw [allocated]
    exact paired.numbered c (by simp [(kept present).1])

/-- A new connection from zeroed memory has no peer. -/
theorem Paired.newconn
    {setup : Setup}
    {new : Nat}
    (paired : Paired before)
    (called : newconn zeroed before setup now = some (new, after)) :
    Paired after := by
  obtain ⟨rfl, peers, allocated⟩ := newconn_spec called
  have absent : before.peer before.allocated = none := by
    rw [← Option.not_isSome_iff_eq_none]
    intro live
    exact Nat.lt_irrefl _ (paired.numbered _ live)
  constructor
  · intro c d present
    rw [peers] at present ⊢
    by_cases atNew : c = before.allocated
    · simp [atNew, zeroed] at present
    · rw [Function.update_of_ne atNew] at present
      have back := paired.symmetric c d present
      by_cases sameNew : d = before.allocated
      · rw [sameNew, absent] at back
        simp at back
      · rwa [Function.update_of_ne sameNew]
  · intro c live
    rw [allocated]
    by_cases atNew : c = before.allocated
    · omega
    · rw [peers, Function.update_of_ne atNew] at live
      have := paired.numbered c live
      omega

/-- `openconn` pairs a connection without a peer. -/
theorem Paired.openconn
    {memory : Nat → Conn}
    {setup : Setup}
    {result : Option Nat}
    (paired : Paired before)
    (single : before.peer id = some none)
    (called : openconn memory before setup id now = some (result, after)) :
    Paired after ∧ ∀ other, result = some other → after.peer id = some (some other) := by
  have older := paired.older single
  have absent : before.peer before.allocated = none := by
    rw [← Option.not_isSome_iff_eq_none]
    intro live
    exact Nat.lt_irrefl _ (paired.numbered _ live)
  rcases openconn_spec older called with ⟨rfl, rfl⟩ | ⟨rfl, peers, allocated⟩
  · exact ⟨paired, nofun⟩
  · refine ⟨⟨?_, ?_⟩, ?_⟩
    · intro c d present
      rw [peers] at present ⊢
      simp only [openPeers] at present ⊢
      by_cases atId : c = id
      · subst atId
        obtain rfl : before.allocated = d := by simpa using present
        rw [Function.update_of_ne older.symm, Function.update_self]
      · by_cases atNew : c = before.allocated
        · subst atNew
          obtain rfl : id = d := by simpa [atId] using present
          simp
        · rw [Function.update_of_ne atId, Function.update_of_ne atNew] at present
          have back := paired.symmetric c d present
          have notId : d ≠ id := by
            rintro rfl
            simp [single] at back
          have notNew : d ≠ before.allocated := by
            rintro rfl
            simp [absent] at back
          rwa [Function.update_of_ne notId, Function.update_of_ne notNew]
    · intro c live
      rw [allocated]
      by_cases atId : c = id
      · have := paired.numbered id (by simp [single])
        omega
      · by_cases atNew : c = before.allocated
        · omega
        · have former : (before.peer c).isSome = true := by
            simpa [peers, openPeers, atId, atNew] using live
          have := paired.numbered c former
          omega
    · rintro other ⟨⟩
      simp [peers, openPeers]

/-- The part behind `EPOLLIN` keeps the pairs, and goes on with a pair. -/
theorem Paired.forwardInput
    {other result : Option Nat}
    {ready : Ready}
    (paired : Paired before)
    (pair : ∀ peer, other = some peer → before.peer id = some (some peer))
    (called : forwardInput before now id other ready = some (result, after)) :
    Paired after ∧ ∀ peer, result = some peer → after.peer id = some (some peer) := by
  obtain ⟨peer, input, filled, output, drained, rfl, filling, draining, ended⟩ :=
    forwardInput_cases called
  have same := fill_same filling
  have same' := drain_same draining
  have pairedThere := (paired.congr same).congr same'
  rcases ended with ⟨_, _, rfl, touch⟩ | ⟨_, rfl, close⟩
  · have last := touchConn_spec touch
    refine ⟨pairedThere.congr last, ?_⟩
    rintro _ ⟨⟩
    rw [last.peer, same'.peer, same.peer]
    exact pair peer rfl
  · exact ⟨pairedThere.closeconn close, nofun⟩

/-- `EPOLLIN` keeps the pairs. -/
theorem Paired.handleInput
    {result : Option Nat}
    {ready : Ready}
    (paired : Paired before)
    (called : handleInput zeroed before now id ready = some (result, after)) :
    Paired after ∧ ∀ peer, result = some peer → after.peer id = some (some peer) := by
  obtain ⟨conn, touched, other, middle, live, touch, pairing, forwarded⟩ :=
    handleInput_cases called
  have same := touchConn_spec touch
  have own : touched.peer id = some conn.other := by
    rw [same.peer]
    simp [State.peer, live]
  rcases pairing with ⟨peer, shape, rfl, rfl⟩ | ⟨single, opened⟩
  · refine (paired.congr same).forwardInput ?_ forwarded
    rintro _ ⟨⟩
    rw [own, shape]
  · rw [single] at own
    obtain ⟨pairedThere, pair⟩ := (paired.congr same).openconn own opened
    exact pairedThere.forwardInput pair forwarded

/-- `EPOLLOUT` keeps the pairs if the connection can be written to. -/
theorem Paired.handleOutput
    {other : Nat}
    {ready : Ready}
    (paired : Paired before)
    (good : Splice.failed ∉ ready.backOutputs)
    (called : handleOutput before now id other ready = some after) :
    Paired after := by
  obtain ⟨output, drained, middle, draining, wrote, refilled⟩ := handleOutput_cases called
  have same := drain_same draining
  obtain ⟨_, transfer, _, _, moved, rfl, _⟩ := drain_spec draining
  rcases wrote with ⟨_, touch⟩ | ⟨bad, _⟩
  · have pairedThere := (paired.congr same).congr (touchConn_spec touch)
    obtain ⟨_, ⟨_, rfl⟩ | ⟨input, filled, _, filling, ended⟩⟩ := refill_cases refilled
    · exact pairedThere
    · have same' := fill_same filling
      rcases ended with ⟨_, rfl⟩ | ⟨_, close⟩
      · exact pairedThere.congr same'
      · exact (pairedThere.congr same').closeconn close
  · rw [(moveDataOut_spec moved).1, Bool.not_eq_false'] at bad
    exact absurd (failed_of_failsOutput bad) good

/-- Every event that writes without failure keeps the pairs. -/
theorem Paired.handleEvent
    {ready : Ready}
    (paired : Paired before)
    (good : ready.epollout = true → Splice.failed ∉ ready.backOutputs)
    (called : handleEvent zeroed now before ready = some after) :
    Paired after := by
  simp only [Proxy.handleEvent] at called
  split at called
  · split at called
    · simp only [newRequest] at called
      split at called
      · obtain ⟨⟨new, made⟩, created, same⟩ := Option.bind_eq_some_iff.mp called
        obtain rfl := Option.some.inj same
        exact paired.newconn created
      · obtain rfl := Option.some.inj called
        exact paired
    · obtain rfl := Option.some.inj called
      exact paired
  · obtain ⟨conn, live, ⟨_, close⟩ | ⟨_, other, middle, first, second⟩⟩ :=
      handleConn_cases called
    · exact paired.closeconn close
    · have pairedThere : Paired middle := by
        rcases first with ⟨_, input⟩ | ⟨_, _, rfl⟩
        · exact (paired.handleInput input).1
        · exact paired
      rcases second with ⟨peer, _, writable, output⟩ | ⟨_, rfl⟩
      · exact pairedThere.handleOutput (good writable) output
      · exact pairedThere

/-- The loop of `expire_connections` keeps the pairs. -/
theorem Paired.expireLoop
    {rounds : Nat}
    {current tmp : Option Nat}
    {result : Int}
    (paired : Paired before)
    (called : expireLoop now rounds current tmp before = some (result, after)) :
    Paired after := by
  induction rounds generalizing before current tmp with
  | zero => simp [Proxy.expireLoop] at called
  | succ rounds inductionHypothesis =>
      cases current with
      | none =>
          simp only [Proxy.expireLoop, Option.some.injEq, Prod.mk.injEq] at called
          obtain ⟨_, rfl⟩ := called
          exact paired
      | some id =>
          simp only [Proxy.expireLoop, Option.bind_eq_bind, Option.bind_eq_some_iff] at called
          obtain ⟨conn, live, called⟩ := called
          split at called
          · simp only [Option.pure_def, Option.some.injEq, Prod.mk.injEq] at called
            obtain ⟨_, rfl⟩ := called
            exact paired
          · obtain ⟨closed, close, called⟩ := Option.bind_eq_some_iff.mp called
            obtain ⟨following, _, onward⟩ := Option.bind_eq_some_iff.mp called
            exact inductionHypothesis (paired.closeconn close) onward

/-- If an event makes a pending output write, the write does not fail. -/
def OutputsSucceed (_ : State) (event : Event) (_ : State) : Prop :=
  match event with
  | .ready _ entry => entry.epollout = true → Splice.failed ∉ entry.backOutputs
  | .expire _ => True

/-- Whatever the main loop does next keeps the pairs. -/
theorem Paired.step
    {event : Event}
    (paired : Paired before)
    (step : Step zeroed before event after)
    (good : OutputsSucceed before event after) :
    Paired after := by
  cases event with
  | ready time entry => exact paired.handleEvent good step
  | expire time =>
      obtain ⟨⟨result, same⟩, expired, rfl⟩ := Option.map_eq_some_iff.mp step
      simp only [expireConnections, Option.bind_eq_bind, Option.bind_eq_some_iff] at expired
      obtain ⟨_, _, _, _, looped⟩ := expired
      exact paired.expireLoop looped

end Pairs

/-! ## Runs -/

/-- The peer relation is symmetric and live. -/
def PeersLive (state : State) : Prop :=
  ∀ c conn,
    state.conns c = some conn →
    ∀ d,
      conn.other = some d →
      ∃ peer, state.conns d = some peer ∧ peer.other = some c

/--
As long as no write to a socket that became writable fails, every peer of a connection is
live and names it back, whatever the events and the system calls are otherwise.
-/
theorem peers_live_when_outputs_succeed
    {events : List Event}
    {final : State}
    (run : Run (Step zeroed) State.initial events final)
    (good : StepsSatisfy (Step zeroed) State.initial events OutputsSucceed) :
    PeersLive final := by
  have paired : Paired final :=
    good.invariant run paired_initial fun before step here => before.step step here
  intro c conn live d other
  have named := paired.symmetric c d (by simp [State.peer, live, other])
  exact Option.map_eq_some_iff.mp named

/-- What the system calls answer in a sample event that needs none of them to fail. -/
def sampleSetup : Setup where
  accepted := true
  connected := true
  piped := true
  registered := true

/-- An event of the listening socket, and one of a connection. -/
def sampleReady (conn : Option Nat) : Ready where
  conn := conn
  errOrHup := false
  epollin := true
  epollout := false
  setup := sampleSetup
  inputs := [.again]
  outputs := []
  backOutputs := []
  pending := 0
  backInputs := []

/-- A client connects, the forwarder connects for it, and one byte arrives at each end. -/
def samplePair : List Event :=
  [.ready 0 (sampleReady none), .ready 0 (sampleReady (some 0)),
    .ready 0 { sampleReady (some 1) with inputs := [.moved [65], .again], outputs := [.again] }]

theorem peers_live_samplePair :
    ∃ final,
      Run (Step zeroed) State.initial samplePair final ∧
        (final.conns 0).map Conn.other = some (some 1) ∧
        PeersLive final := by
  have run : Run (Step zeroed) State.initial samplePair _ := .of_foldlM id rfl
  refine ⟨_, run, by decide, peers_live_when_outputs_succeed run ?_⟩
  apply StepsSatisfy.of_labels
  intro event member before after
  simp only [samplePair, List.mem_cons, List.not_mem_nil, or_false] at member
  rcases member with rfl | rfl | rfl <;> simp [OutputsSucceed, sampleReady]

/-- Behind the pair, a byte cannot be written back to the client. -/
def sampleFailure : List Event :=
  samplePair ++
    [.ready 0
      { sampleReady (some 0) with
        epollin := false, epollout := true, backOutputs := [.failed] }]

/-- The client's end is closed, and stays the peer of the other end. -/
theorem failed_output_leaves_peer :
    ∃ final,
      Run (Step zeroed) State.initial sampleFailure final ∧
        final.conns 0 = none ∧
        (final.conns 1).map Conn.other = some (some 0) ∧
        ¬ PeersLive final := by
  have run : Run (Step zeroed) State.initial sampleFailure _ := .of_foldlM id rfl
  refine ⟨_, run, rfl, rfl, ?_⟩
  intro live
  obtain ⟨peer, present, _⟩ := live 1 _ rfl 0 rfl
  exact absurd present nofun

end Sysprog.Proxy
