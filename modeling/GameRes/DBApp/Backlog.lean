import GameRes.DBApp.MainLoop

/-!
# Tasks that wait (DBApp/ProducerConsumerQueue.h:15-53, DBApp/DBApp.cpp:19-41)

`post` wakes one waiting worker, and a worker takes one task for each time it was woken.
A task posted while nobody waits is a turn behind from then on; nobody closes the pool.
-/

namespace GameRes.DBApp
open Library AppManager

namespace DBServer

/-- A post that wakes nobody. -/
def isUnheard (s : DBServer) : DBEvent → Bool
  | .post => decide (.waiting ∉ s.workers)
  | _ => false

def unheard (tr : List (DBServer × DBEvent)) : ℕ := tr.countP fun x => x.1.isUnheard x.2

def Calm (_ : DBServer) (e : DBEvent) : Prop := e ≠ .spurious

end DBServer
end GameRes.DBApp
