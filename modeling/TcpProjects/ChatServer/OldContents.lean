import TcpProjects.ChatServer.Locals

/-! # The old contents of the stack

Two runs of the server with the same actions differ in what is on the stacks of the
threads. They take the same steps, and send the same bytes exactly if every join
and quit array that is sent is filled by its text. -/

namespace TcpProjects.ChatServer
open Transition

/-! ### The server without the contents -/

def SocketThread.forget (t : SocketThread) : SocketThread := { t with stack := ⟨.zero _,.zero _⟩ }

def State.forget (s : State) : State := { s with thread := fun k => (s.thread k).map .forget }

def Answer.forget : Answer → Answer
  | .started _ => .started ⟨.zero _,.zero _⟩
  | ans => ans

def Action.forget : Action → Action
  | .acceptor ans => .acceptor ans.forget
  | a => a

/- Other contents of the two arrays that are sent as a whole. -/
def Locals.other (l : Locals) : Locals :=
  { l with quitMessage := l.quitMessage.other, joinMessage := l.joinMessage.other }

section TwoRuns
variable {contents contents' : ℕ → Locals} {m m' m₀ m₀' : Machine} {tr tr' : List (Machine × Action)}

end TwoRuns

end TcpProjects.ChatServer
