import Sysprog.ProxyPeers

namespace Sysprog.Proxy

/-!
# What the functions do to the buffers

Only the two transfers move bytes.  Everything else leaves the buffers of the connections
that stay as they are, and what was read and written so far.
-/

/-- The buffer of a connection. -/
def State.bufOf (state : State) (id : Nat) : Option Buffer :=
  (state.conns id).map Conn.buf

/-- No byte is moved. -/
structure SameStreams (before after : State) : Prop where
  received : after.received = before.received
  delivered : after.delivered = before.delivered

/-- The buffer of a new connection: whatever counter its memory held, and an empty pipe. -/
def freshBuffer (memory : Nat → Conn) (id : Nat) : Buffer :=
  { (memory id).buf with content := [] }

section Effects

variable {memory : Nat → Conn} {before after : State} {id : Nat} {now : Int} {setup : Setup}

/-- Assigning to a connection. -/
theorem bufOf_setConn (conn : Conn) :
    (before.setConn id conn).bufOf = Function.update before.bufOf id (some conn.buf) := by
  funext cell
  by_cases atId : cell = id
  · simp [State.bufOf, State.setConn, atId]
  · simp [State.bufOf, State.setConn, atId]

/-- `touch_conn` keeps all buffers. -/
theorem touchConn_buffers (called : touchConn before id now = some after) :
    after.bufOf = before.bufOf ∧ SameStreams before after := by
  simp only [touchConn, Option.bind_eq_bind, Option.bind_eq_some_iff] at called
  obtain ⟨conn, live, same⟩ := called
  simp only [Option.pure_def, Option.some.injEq] at same
  obtain rfl := same
  refine ⟨?_, rfl, rfl⟩
  refine (bufOf_setConn _).trans (Function.update_eq_self_iff.mpr ?_)
  simp [State.bufOf, live]

/-- `delconn` keeps the buffers that stay. -/
theorem delconn_buffers (called : delconn before id = some after) :
    (∀ cell buf, after.bufOf cell = some buf → before.bufOf cell = some buf) ∧
      SameStreams before after := by
  simp only [delconn, Option.bind_eq_bind, Option.bind_eq_some_iff] at called
  obtain ⟨conn, live, deleted⟩ := called
  split at deleted
  · obtain rfl := Option.some.inj deleted
    refine ⟨?_, rfl, rfl⟩
    intro cell buf present
    by_cases atId : cell = id
    · simp [State.bufOf, atId] at present
    · simpa [State.bufOf, atId] using present
  · simp at deleted

/-- `closeconn` keeps the buffers that stay. -/
theorem closeconn_buffers (called : closeconn before id = some after) :
    (∀ cell buf, after.bufOf cell = some buf → before.bufOf cell = some buf) ∧
      SameStreams before after := by
  simp only [closeconn, Option.bind_eq_bind, Option.bind_eq_some_iff] at called
  obtain ⟨conn, live, deleted⟩ := called
  cases shape : conn.other with
  | none =>
      rw [shape] at deleted
      exact delconn_buffers deleted
  | some other =>
      rw [shape] at deleted
      obtain ⟨middle, first, second⟩ := Option.bind_eq_some_iff.mp deleted
      obtain ⟨kept, same⟩ := delconn_buffers first
      obtain ⟨kept', same'⟩ := delconn_buffers second
      exact ⟨fun cell buf present => kept cell buf (kept' cell buf present),
        same'.received.trans same.received, same'.delivered.trans same.delivered⟩

/-- `newconn` adds one buffer. -/
theorem newconn_buffers
    {new : Nat}
    (called : newconn memory before setup now = some (new, after)) :
    after.bufOf =
        Function.update before.bufOf before.allocated
          (some (freshBuffer memory before.allocated)) ∧
      SameStreams before after := by
  simp only [newconn] at called
  split at called
  · simp only [Option.some.injEq, Prod.mk.injEq] at called
    obtain ⟨rfl, rfl⟩ := called
    exact ⟨bufOf_setConn _, rfl, rfl⟩
  · simp at called

/-- `openconn` adds one buffer, or returns null. -/
theorem openconn_buffers
    {result : Option Nat}
    (called : openconn memory before setup id now = some (result, after)) :
    ((result = none ∧ after.bufOf = before.bufOf) ∨
        (result ≠ none ∧
          after.bufOf =
            Function.update before.bufOf before.allocated
              (some (freshBuffer memory before.allocated)))) ∧
      SameStreams before after := by
  simp only [openconn] at called
  split at called
  · simp only [Option.bind_eq_bind, Option.bind_eq_some_iff] at called
    obtain ⟨⟨new, middle⟩, made, conn, live, former, formerLive, same⟩ := called
    simp only [Option.pure_def, Option.some.injEq, Prod.mk.injEq] at same
    obtain ⟨rfl, rfl⟩ := same
    dsimp only at live formerLive
    obtain ⟨buffers, streams⟩ := newconn_buffers made
    have added :
        ((middle.setConn new { conn with other := some id }).setConn id
            { former with other := some new }).bufOf =
          Function.update before.bufOf before.allocated
            (some (freshBuffer memory before.allocated)) := by
      rw [bufOf_setConn, Function.update_eq_self_iff.mpr, bufOf_setConn,
        Function.update_eq_self_iff.mpr, buffers]
      · simp [State.bufOf, live]
      · simp [State.bufOf, formerLive]
    exact ⟨Or.inr ⟨by simp, added⟩, streams.received, streams.delivered⟩
  · simp only [Option.some.injEq, Prod.mk.injEq] at called
    obtain ⟨rfl, rfl⟩ := called
    exact ⟨Or.inl ⟨rfl, rfl⟩, rfl, rfl⟩

end Effects

end Sysprog.Proxy
