import GameRes.Server.Sessions

/-!
# The network thread of a server (NetApp/NetFrame.cpp:33-386)

What the callbacks keep, whatever the other thread is: it takes messages and may queue
packets, but no disconnects.
-/

namespace GameRes.Server
open Library NetApp

/-- The callbacks of the network thread. -/
def Event.OfNetwork : Event → Prop
  | .pop | .reply _ _ _ | .handled _ | .push _ _ _ | .sendClient _ _ _ | .close => False
  | _ => True

/-- Every message of the receive queue has its length in its block. -/
def Blocks (ms : List Message) : Prop :=
  ∀ m ∈ ms, ∀ block, m.buf = some block → m.len.toNat ≤ block.length

structure Healthy (w : World) : Prop where
  sound : Sound w
  undisturbed : Undisturbed w
  separated : Separated w
  blocks : Blocks (pushes w)

theorem healthy_init : Healthy {} :=
  ⟨sound_init, ⟨by simp, by simp⟩, separated_init, nofun⟩

theorem Undisturbed.closesEnded {w u : World} {e : Event} (h : Undisturbed w)
    (hstep : Step w e u) : ClosesEnded w e := by
  rintro p a rfl hheap
  cases hstep with
  | onClose hheap' hclosing =>
    rw [hheap] at hheap'
    obtain rfl := Option.some.inj hheap'
    exact h.torn p a hheap (Or.inr hclosing)

theorem blocks_step {w u : World} {e : Event} (hs : Sound w) (h : Blocks (pushes w))
    (hstep : Step w e u) : Blocks (pushes u) := by
  have hsnoc : ∀ m : Message, (∀ block, m.buf = some block → m.len.toNat ≤ block.length) →
      Blocks (pushes w ++ [m]) := by
    intro m hm
    exact List.forall_mem_append.mpr ⟨h, fun m' hm' => List.mem_singleton.mp hm' ▸ hm⟩
  cases hstep with
  | accept hnull hfree =>
    rw [accept_pushes hnull]
    exact h
  | acceptFailed hfail =>
    rw [TCPServer.onConnection_fail _ hfail]
    exact h
  | @readData p a chunk rest hread hne hlen =>
    obtain ⟨k, -, -, heq⟩ := @Sound.readData_eq _ hs _ _ _ rest hread hne
    have hpush := hsnoc ⟨k, BitVec.ofInt 32 chunk.length, some (chunk ++ rest), some a.serial⟩ (by
      rintro block ⟨⟩
      rw [BitVec.toNat_ofInt, List.length_append]
      omega)
    rw [heq]
    rwa [pushes, List.append_assoc] at hpush
  | @readEnd p a nread order ret hread hneg horder =>
    obtain ⟨k, b, -, -, heq⟩ := @Sound.readEnd_eq _ hs _ _ _ ret _ hread hneg horder
    have hpush := hsnoc ⟨k, 0, none, some a.serial⟩ fun block hbuf => by cases hbuf
    rw [heq]
    rwa [pushes, List.append_assoc] at hpush
  | timer htimer =>
    rw [pushes, (tick_popped w _).1, (tick_queues w _).1]
    exact h
  | pop =>
    rw [(still_pop w).pushes]
    exact h
  | sendClient hsend =>
    obtain ⟨r, -, rfl⟩ := Option.map_eq_some_iff.mp hsend
    exact h
  | _ => exact h

theorem healthy_step {w u : World} {e : Event} (h : Healthy w) (hno : NoDisconnect w e)
    (hstep : Step w e u) : Healthy u := by
  have hclose := h.undisturbed.closesEnded hstep
  exact ⟨sound_step h.sound hclose hstep, undisturbed_step h.undisturbed hno hstep,
    separated_step h.separated h.sound hclose hstep, blocks_step h.sound h.blocks hstep⟩

theorem network_handling {w u : World} {e : Event} (hnet : e.OfNetwork) (hstep : Step w e u) :
    u.handling = w.handling ∧ u.popped = w.popped := by
  cases hstep with
  | timer htimer => exact ⟨(tick_queues w _).2.1, (tick_popped w _).1⟩
  | pop => exact hnet.elim
  | sendClient hsend => exact hnet.elim
  | handled => exact hnet.elim
  | _ => exact ⟨rfl, rfl⟩

theorem network_sent {e : Event} (hnet : e.OfNetwork) : e.sent = [] := by
  cases e <;> first | rfl | exact hnet.elim

end GameRes.Server
