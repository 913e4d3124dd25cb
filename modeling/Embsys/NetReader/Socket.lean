/-
# The socket of net_reader

net_reader binds one UDP socket to the port it was given, on every address.
-/

import Embsys.Forwarder.Handler

namespace Embsys.NetReader

open Embsys.Os Embsys.Forwarder

structure Handlers where
  sockfd : ℤ
  infoMe : SockaddrIn

/-- `htonl(INADDR_ANY)`. -/
def inaddrAny : BitVec 32 := 0

/-- The outcome of `socket` is the descriptor, the one of `bind` whether it succeeds. -/
def initSocket (port : ℤ) (handlers : Handlers) (socket : Option ℕ) (bind : Bool)
    (system : System) : ℤ × Handlers × System :=
  let (sockfd, system) := system.openFd .socket socket
  let handlers := { handlers with sockfd := sockfd }
  if sockfd = -1 then (-1, handlers, system)
  else
    let handlers := { handlers with
      infoMe := { SockaddrIn.zero with
        sinFamily := afInet
        sinPort   := htons port
        sinAddr   := inaddrAny } }
    if bind then (0, handlers, system) else (-1, handlers, system)

/-- A bound socket has the port. -/
theorem sinPort_of_initSocket {port : ℤ} {handlers after : Handlers} {socket : Option ℕ}
    {bind : Bool} {system system' : System}
    (hdone : initSocket port handlers socket bind system = (0, after, system')) :
    after.infoMe.sinPort = htons port := by
  unfold initSocket at hdone
  dsimp only at hdone
  split_ifs at hdone
  · simp at hdone
  · obtain ⟨-, hafter⟩ := Prod.mk.inj hdone
    rw [← (Prod.mk.inj hafter).1]
  · simp at hdone

end Embsys.NetReader
