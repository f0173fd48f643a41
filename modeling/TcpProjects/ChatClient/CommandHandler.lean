import TcpProjects.Util.Split
import Mathlib.Data.List.Induction

/-! # The command handler

`CommandHandler` keeps a list of pointers to commands, in the order in which they
were registered. `handleCommand` looks for the label of its input, which is cut off
by `find_first_of` and `substr`, and hands over the arguments, which come from
`Util::split`. The two agree on the first word. -/

namespace TcpProjects.ChatClient
open Words Util

def space : Byte := byte ' '

/- `string::find_first_of`; `none` is `npos`. -/
def findFirstOf (s : Bytes) (c : Byte) : Option ℕ := s.findIdx? (· = c)

/- `string::substr` from 0. -/
def substr (s : Bytes) : Option ℕ → Bytes
  | none => s
  | some n => s.take n

/- What `handleCommand` does: a call of `execute`, or the report on `cerr`. -/
inductive Effect (Command : Type*) where
  | execute (command : Command) (args : List Bytes)
  | unknownCommand (label : Bytes)
  deriving DecidableEq

def Effect.executed {Command : Type*} : Effect Command → Option (Command × List Bytes)
  | .execute command args => some (command,args)
  | .unknownCommand _ => none

structure CommandHandler (Command : Type*) where
  commands : List Command

namespace CommandHandler
variable {Command : Type*} (getLabel : Command → Bytes)

def empty : CommandHandler Command := ⟨[]⟩

def registerCommand (h : CommandHandler Command) (command : Command) : CommandHandler Command :=
  ⟨h.commands ++ [command]⟩

/- `list::remove` takes out every copy. -/
def unregisterCommand [DecidableEq Command] (h : CommandHandler Command) (command : Command) :
    CommandHandler Command := ⟨h.commands.filter (· ≠ command)⟩

/- The loop of `handleCommand`. -/
def handleFrom (label context : Bytes) : List Command → List (Effect Command)
  | [] => [.unknownCommand label]
  | command :: commands =>
    if label = getLabel command then [.execute command (split context space)]
    else handleFrom label context commands

def handleCommand (h : CommandHandler Command) (context : Bytes) : List (Effect Command) :=
  handleFrom getLabel (substr context (findFirstOf context space)) context h.commands

theorem mem_registerCommand (h : CommandHandler Command) (command other : Command) :
    other ∈ (h.registerCommand command).commands ↔ command = other ∨ other ∈ h.commands := by
  rw [registerCommand,List.mem_append,List.mem_singleton,or_comm,eq_comm]

theorem mem_unregisterCommand [DecidableEq Command] (h : CommandHandler Command)
    (command other : Command) :
    other ∈ (h.unregisterCommand command).commands ↔ command ≠ other ∧ other ∈ h.commands := by
  rw [unregisterCommand,List.mem_filter,decide_eq_true_eq,and_comm,ne_comm]

end CommandHandler

inductive Call (Command : Type*) where
  | registerCommand (command : Command)
  | unregisterCommand (command : Command)
  deriving DecidableEq

section History
variable {Command : Type*}

/- A place in a history that got one more call: the new call, or a place before it. -/
theorem place_snoc {α : Type*} {history before behind : List α} {last x : α}
    (h : history ++ [last] = before ++ x :: behind) :
    behind = [] ∧ last = x ∨ ∃ rest, behind = rest ++ [last] ∧ history = before ++ x :: rest := by
  rcases List.eq_nil_or_concat' behind with rfl | ⟨rest,y,rfl⟩
  · exact Or.inl ⟨rfl,(List.cons.inj (List.append_inj' h rfl).2).1⟩
  · rw [← List.cons_append,← List.append_assoc] at h
    obtain ⟨hhistory,hlast⟩ := List.append_inj' h rfl
    obtain rfl := (List.cons.inj hlast).1
    exact Or.inr ⟨rest,rfl,hhistory⟩

/- The command was registered and then not unregistered. -/
def Registered (history : List (Call Command)) (command : Command) : Prop :=
  ∃ before behind, history = before ++ .registerCommand command :: behind ∧
    .unregisterCommand command ∉ behind

theorem registered_snoc (history : List (Call Command)) (last : Call Command) (command : Command) :
    Registered (history ++ [last]) command ↔ last = .registerCommand command ∨
      last ≠ .unregisterCommand command ∧ Registered history command := by
  constructor
  · intro ⟨before,behind,he,hno⟩
    rcases place_snoc he with ⟨_,hlast⟩ | ⟨rest,rfl,hhistory⟩
    · exact Or.inl hlast
    · simp only [List.mem_append,List.mem_singleton,not_or] at hno
      exact Or.inr ⟨Ne.symm hno.2,before,rest,hhistory,hno.1⟩
  · intro hor
    rcases hor with rfl | ⟨hlast,before,behind,rfl,hno⟩
    · exact ⟨history,[],rfl,List.not_mem_nil⟩
    · exact ⟨before,behind ++ [last],by simp,by simp [hno,Ne.symm hlast]⟩

variable [DecidableEq Command]

def call (h : CommandHandler Command) : Call Command → CommandHandler Command
  | .registerCommand command => h.registerCommand command
  | .unregisterCommand command => h.unregisterCommand command

def handlerAfter (history : List (Call Command)) : CommandHandler Command :=
  history.foldl call CommandHandler.empty

/- A command is in the list if it was not unregistered since it was registered. -/
theorem mem_handlerAfter (history : List (Call Command)) (command : Command) :
    command ∈ (handlerAfter history).commands ↔ Registered history command := by
  induction history using List.reverseRecOn with
  | nil => simp [handlerAfter,CommandHandler.empty,Registered]
  | append_singleton history last ih =>
    have hlast : handlerAfter (history ++ [last]) = call (handlerAfter history) last := by
      rw [handlerAfter,List.foldl_append]
      rfl
    rw [hlast,registered_snoc,← ih]
    cases last with
    | registerCommand other => simp [call,CommandHandler.mem_registerCommand,eq_comm]
    | unregisterCommand other => simp [call,CommandHandler.mem_unregisterCommand,eq_comm]

end History

/-! ### The label -/

theorem substr_findFirstOf (s : Bytes) (c : Byte) :
    substr s (findFirstOf s c) = s.takeWhile (· ≠ c) := by
  induction s with
  | nil => rfl
  | cons x s ih =>
    rw [findFirstOf,List.findIdx?_cons]
    by_cases hx : x = c
    · simp [hx,substr]
    · rw [List.takeWhile_cons_of_pos (by simpa using hx),← ih,findFirstOf]
      cases hf : s.findIdx? (· = c) with
      | none => simp [hx,substr]
      | some n => simp [hx,substr]

/- The label of a command is the first argument of its input. -/
theorem split_label {context : Bytes} (h : context.takeWhile (· ≠ space) ≠ []) :
    split context space = context.takeWhile (· ≠ space) ::
      words space (context.drop (context.takeWhile (· ≠ space)).length) := by
  have hfree : space ∉ context.takeWhile (· ≠ space) := fun hm => by
    simpa using List.mem_takeWhile_imp hm
  have happend := List.takeWhile_append_dropWhile (p := fun x => decide (x ≠ space)) (l := context)
  have hrest : context.drop (context.takeWhile (· ≠ space)).length =
      context.dropWhile (· ≠ space) := by
    have h := congrArg (List.drop (context.takeWhile (· ≠ space)).length) happend
    rw [List.drop_left] at h
    exact h.symm
  have hwords : words space context =
      words space (context.takeWhile (· ≠ space) ++ context.dropWhile (· ≠ space)) := by rw [happend]
  rw [split_words,hwords,hrest]
  cases hd : context.dropWhile (· ≠ space) with
  | nil =>
    rw [List.append_nil,words_single h hfree]
    rfl
  | cons x rest =>
    have hx : x = space := by
      have hhead := List.head?_dropWhile_not (fun x => decide (x ≠ space)) context
      rw [hd] at hhead
      simpa using hhead
    rw [hx,words_first h hfree]
    exact congrArg _ (words_replicate space 1 rest).symm

/-! ### Dispatch -/

section Dispatch
variable {Command : Type*} (getLabel : Command → Bytes)

/- The first command with the label is executed. -/
theorem executed_handleFrom (label context : Bytes) (commands : List Command) :
    (CommandHandler.handleFrom getLabel label context commands).filterMap Effect.executed =
      ((commands.find? fun c => decide (getLabel c = label)).map fun c =>
        (c,split context space)).toList := by
  induction commands with
  | nil => rfl
  | cons c commands ih =>
    unfold CommandHandler.handleFrom
    split_ifs with h
    · simp [h,Effect.executed]
    · rw [ih,List.find?_cons_of_neg (by simpa using Ne.symm h)]

theorem command_dispatch [DecidableEq Command] (history : List (Call Command))
    (hlabels : ∀ c, .registerCommand c ∈ history → getLabel c ≠ []) (context : Bytes) :
    let commands := (handlerAfter history).commands
    let label := context.takeWhile (· ≠ space)
    let executed := ((handlerAfter history).handleCommand getLabel context).filterMap Effect.executed
    executed.length ≤ 1 ∧
    (executed ≠ [] ↔ ∃ c ∈ commands, getLabel c = label) ∧
    (∀ command args, (command,args) ∈ executed →
      (∃ before behind, commands = before ++ command :: behind ∧ getLabel command = label ∧
        ∀ c ∈ before, getLabel c ≠ label) ∧
      args = label :: words space (context.drop label.length)) ∧
    ∀ c, c ∈ commands ↔ Registered history c := by
  intro commands label executed
  have hexecuted : executed = ((commands.find? fun c => decide (getLabel c = label)).map fun c =>
      (c,split context space)).toList := by
    simp only [executed,CommandHandler.handleCommand,substr_findFirstOf]
    exact executed_handleFrom getLabel label context commands
  rw [hexecuted]
  refine ⟨?_,?_,?_,mem_handlerAfter history⟩
  · cases commands.find? fun c => decide (getLabel c = label) <;> simp
  · have hsome : (commands.find? fun c => decide (getLabel c = label)).isSome = true ↔
        ∃ c ∈ commands, getLabel c = label := by simp
    rw [← hsome]
    cases commands.find? fun c => decide (getLabel c = label) <;> simp
  · intro command args hm
    cases hf : commands.find? fun c => decide (getLabel c = label) with
    | none => simp [hf] at hm
    | some c =>
      obtain ⟨rfl,rfl⟩ : command = c ∧ args = split context space := by simpa [hf] using hm
      obtain ⟨hl,before,behind,he,hno⟩ := List.find?_eq_some_iff_append.mp hf
      have hlabel : getLabel command = label := by simpa using hl
      refine ⟨⟨before,behind,he,hlabel,fun c hc => by simpa using hno c hc⟩,split_label ?_⟩
      obtain ⟨pre,post,hhistory,_⟩ := (mem_handlerAfter history command).mp (List.mem_of_find?_eq_some hf)
      have hne := hlabels command (by simp [hhistory])
      rwa [hlabel] at hne

/- Commands that are told apart by their place in memory. -/
def labelOf : ℕ → Bytes
  | 0 => ascii "help"
  | 1 => ascii "quit"
  | _ => ascii "ping"

/- Two commands with one label; the first is registered twice and then taken out. -/
def pingHistory : List (Call ℕ) :=
  [.registerCommand 0,.registerCommand 2,.registerCommand 1,.registerCommand 2,.registerCommand 3,
    .unregisterCommand 2]

theorem labelOf_ne (n : ℕ) : labelOf n ≠ [] := by
  match n with
  | 0 => decide
  | 1 => decide
  | n+2 => exact List.cons_ne_nil _ _

theorem command_dispatch_ping :
    (∃ before behind, (handlerAfter pingHistory).commands = before ++ 3 :: behind ∧
      labelOf 3 = ascii "ping" ∧ ∀ c ∈ before, labelOf c ≠ ascii "ping") ∧
    [ascii "ping",ascii "now"] = ascii "ping" :: words space (ascii "  now  ") :=
  (command_dispatch labelOf pingHistory (fun c _ => labelOf_ne c) (ascii "ping  now  ")).2.2.1 3 _
    (by decide +kernel)

end Dispatch
end TcpProjects.ChatClient
