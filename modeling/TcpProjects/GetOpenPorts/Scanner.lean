import TcpProjects.Base.Transition
import TcpProjects.Base.CString
import Mathlib.Data.Finset.Card

/-! # The port scanner

`main` of `getOpenPorts.c` with the search thread and the timeout thread. `connect`
succeeds on the ports of a set; a failure of `socket` or of `close` ends the process. -/

namespace TcpProjects.GetOpenPorts
open Transition

def timeoutSeconds : ℕ := 10
def maxPort : ℕ := 65535
def clocksPerSec : ℕ := 1000000

/- What one call of `printf` writes. -/
inductive Printed where
  | getting
  | timeout
  | count (numPorts : ℕ)
  | heading
  | port (p : ℕ)
  | newline
  deriving DecidableEq

def Printed.text : Printed → Bytes
  | .getting => ascii "[OK] Getting open ports...\n"
  | .timeout => ascii "Timeout\n"
  | .count numPorts => ascii "Number of open ports = " ++ decimal numPorts ++ ascii "\n"
  | .heading => ascii "Opened ports: "
  | .port p => decimal p ++ ascii " "
  | .newline => ascii "\n"

/- `printIntArray` is the loop of that function at index `i`. -/
inductive Main where
  | createTimeout
  | createSearch
  | joinTimeout
  | testTimedout (isTimedout : Bool)
  | cancel
  | exitFailure
  | joinSearch
  | printCount (numPorts : ℕ)
  | printHeading (numPorts : ℕ)
  | printIntArray (numPorts i : ℕ)
  | exitSuccess (numPorts : ℕ)

/- `test` is the head of the loop over the ports. -/
inductive Search where
  | notCreated
  | started
  | test (num port : ℕ)
  | connect (num port : ℕ)
  | close (num port : ℕ)
  | setDone (num : ℕ)
  | returned (num : ℕ)

/- `report` is what follows the loop. -/
inductive Timeout where
  | notCreated
  | started
  | clock (start : ℕ)
  | lock (start time : ℕ)
  | test (start time : ℕ)
  | unlock (start time : ℕ) (isDone : Bool)
  | report
  | returned (isTimedout : Bool)

/- `openPorts` is the memory from the first entry of `open_ports` on. `status` is set when
the process ends. -/
structure Scanner where
  main : Main
  search : Search
  timeout : Timeout
  isDone : Bool
  mutex : Bool
  clock : ℕ
  openPorts : ℕ → ℕ
  stdout : List Printed
  stderr : Bytes
  status : Option ℕ

/- Any thread may go on, and time may pass. The call of the search thread may fail, with
the text of `strerror` as `message`. -/
inductive Action where
  | main
  | search
  | fails (localSocket : ℕ) (message : Bytes)
  | timeout
  | tick (clocks : ℕ)

def Scanner.print (s : Scanner) (x : Printed) : Scanner := { s with stdout := s.stdout ++ [x] }

/- The array is not initialised. -/
def initial (openPorts : ℕ → ℕ) : Scanner :=
  ⟨.createTimeout,.notCreated,.notCreated,false,false,0,openPorts,[],[],none⟩

/- A search thread that is cancelled may still run until the process exits. -/
def mainStep (s : Scanner) : Option Scanner :=
  match s.main with
  | .createTimeout => some { s with timeout := .started, main := .createSearch }
  | .createSearch => some { s with search := .started, main := .joinTimeout }
  | .joinTimeout => match s.timeout with
    | .returned isTimedout => some { s with main := .testTimedout isTimedout }
    | _ => none
  | .testTimedout isTimedout => some { s with main := if isTimedout then .cancel else .joinSearch }
  | .cancel => some { s with main := .exitFailure }
  | .exitFailure => some { s with status := some 1 }
  | .joinSearch => match s.search with
    | .returned num => some { s with main := .printCount num }
    | _ => none
  | .printCount numPorts => some { s.print (.count numPorts) with main := .printHeading numPorts }
  | .printHeading numPorts => some { s.print .heading with main := .printIntArray numPorts 0 }
  | .printIntArray numPorts i =>
    if i < numPorts then
      some { s.print (.port (s.openPorts i)) with main := .printIntArray numPorts (i+1) }
    else some { s.print .newline with main := .exitSuccess numPorts }
  | .exitSuccess _ => some { s with status := some 0 }

def searchStep (S : Finset ℕ) (s : Scanner) : Option Scanner :=
  match s.search with
  | .notCreated => none
  | .started => some { s.print .getting with search := .test 0 0 }
  | .test num port =>
    if port < maxPort then some { s with search := .connect num port }
    else some { s with search := .setDone num, stderr := s.stderr ++ ascii "[OK] All possible ports tested\n" }
  | .connect num port =>
    if port ∈ S then
      some { s with openPorts := Function.update s.openPorts num port, search := .close (num+1) port }
    else some { s with search := .close num port }
  | .close num port => some { s with search := .test num (port+1) }
  | .setDone num => some { s with isDone := true, search := .returned num }
  | .returned _ => none

def Scanner.exitFailure (s : Scanner) (message : Bytes) : Scanner :=
  { s with stderr := s.stderr ++ (ascii "[FAIL] " ++ message ++ ascii "\n"), status := some 1 }

/- `socket` fails in `makeSocket` before a port is tested, and `close` behind it. -/
def searchFails (localSocket : ℕ) (message : Bytes) (s : Scanner) : Option Scanner :=
  match s.search with
  | .test _ port =>
    if port < maxPort then some (s.exitFailure (ascii "Local socket failed to be created: " ++ message))
    else none
  | .close _ _ => some (s.exitFailure
      (ascii "Socket " ++ decimal localSocket ++ ascii " failed to close: " ++ message))
  | _ => none

def timeoutStep (s : Scanner) : Option Scanner :=
  match s.timeout with
  | .notCreated => none
  | .started => some { s with timeout := .clock s.clock }
  | .clock start => some { s with timeout := .lock start ((s.clock-start)/clocksPerSec) }
  | .lock start time => if s.mutex then none else some { s with mutex := true, timeout := .test start time }
  | .test start time => some { s with timeout := .unlock start time s.isDone }
  | .unlock start time isDone => some { s with
      mutex := false
      timeout := if isDone then .returned false else
        if time < timeoutSeconds then .clock start else .report }
  | .report => some { s.print .timeout with timeout := .returned true }
  | .returned _ => none

def step (S : Finset ℕ) (s : Scanner) (a : Action) : Option Scanner :=
  if s.status.isSome then none else
  match a with
  | .main => mainStep s
  | .search => searchStep S s
  | .fails localSocket message => searchFails localSocket message s
  | .timeout => timeoutStep s
  | .tick clocks => some { s with clock := s.clock+clocks }

/- The index that an action writes in `open_ports`. -/
def written (S : Finset ℕ) (s : Scanner) : Action → Option ℕ
  | .search => match s.search with
    | .connect num port => if port ∈ S then some num else none
    | _ => none
  | _ => none

/-! ### What the threads keep -/

/- The ports below `port` that are open. -/
def found (S : Finset ℕ) (port : ℕ) : List ℕ := (List.range port).filter (· ∈ S)

theorem found_succ (S : Finset ℕ) (port : ℕ) :
    found S (port+1) = found S port ++ if port ∈ S then [port] else [] := by
  rw [found,List.range_succ,List.filter_append,List.filter_singleton]
  by_cases h : port ∈ S <;> simp [h,found]

theorem found_length (S : Finset ℕ) (port : ℕ) : (found S port).length ≤ port := by
  have h := List.length_filter_le (fun p => decide (p ∈ S)) (List.range port)
  rwa [List.length_range] at h

/- The first `num` entries are the open ports below `port`. -/
def Holds (S : Finset ℕ) (openPorts : ℕ → ℕ) (num port : ℕ) : Prop :=
  (List.range num).map openPorts = found S port

namespace Holds
variable {S : Finset ℕ} {openPorts : ℕ → ℕ} {num port : ℕ}

theorem length (h : Holds S openPorts num port) : num = (found S port).length := by
  rw [← h,List.length_map,List.length_range]

theorem store (h : Holds S openPorts num port) (hp : port ∈ S) :
    Holds S (Function.update openPorts num port) (num+1) (port+1) := by
  have hkeep : (List.range num).map (Function.update openPorts num port) =
      (List.range num).map openPorts := by
    refine List.map_congr_left fun i hi => ?_
    rw [Function.update_of_ne (Nat.ne_of_lt (List.mem_range.mp hi))]
  rw [Holds,found_succ,if_pos hp,List.range_succ,List.map_append,hkeep,h,List.map_singleton,
    Function.update_self]

theorem skip (h : Holds S openPorts num port) (hp : port ∉ S) : Holds S openPorts num (port+1) := by
  rw [Holds,found_succ,if_neg hp,List.append_nil]
  exact h

end Holds

def SearchOk (S : Finset ℕ) (openPorts : ℕ → ℕ) : Search → Prop
  | .notCreated | .started => True
  | .test num port => port ≤ maxPort ∧ Holds S openPorts num port
  | .connect num port => port < maxPort ∧ Holds S openPorts num port
  | .close num port => port < maxPort ∧ Holds S openPorts num (port+1)
  | .setDone num | .returned num => Holds S openPorts num maxPort

/- `main` is behind a `pthread_join` only when the thread has returned. -/
def MainOk (s : Scanner) : Prop :=
  match s.main with
  | .createTimeout => s.search = .notCreated ∧ s.timeout = .notCreated
  | .createSearch => s.search = .notCreated
  | .joinTimeout | .cancel | .exitFailure => True
  | .testTimedout isTimedout => s.timeout = .returned isTimedout
  | .joinSearch => s.timeout = .returned false
  | .printCount numPorts | .printHeading numPorts | .exitSuccess numPorts =>
    s.timeout = .returned false ∧ s.search = .returned numPorts
  | .printIntArray numPorts i =>
    s.timeout = .returned false ∧ s.search = .returned numPorts ∧ i ≤ numPorts

def searchOutput : Search → List Printed
  | .notCreated | .started => []
  | _ => [.getting]

def mainOutput (openPorts : ℕ → ℕ) : Main → List Printed
  | .printHeading numPorts => [.count numPorts]
  | .printIntArray numPorts i =>
    [.count numPorts,.heading] ++ (List.range i).map fun j => .port (openPorts j)
  | .exitSuccess numPorts =>
    [.count numPorts,.heading] ++ ((List.range numPorts).map fun j => .port (openPorts j)) ++ [.newline]
  | _ => []

structure Inv (S : Finset ℕ) (s : Scanner) : Prop where
  search : SearchOk S s.openPorts s.search
  main : MainOk s
  output : s.stdout.filter (· ≠ .timeout) = searchOutput s.search ++ mainOutput s.openPorts s.main
  timeout : .timeout ∈ s.stdout → s.timeout = .returned true

variable {S : Finset ℕ} {s s' : Scanner} {openPorts : ℕ → ℕ}

theorem initial_inv : Inv S (initial openPorts) :=
  ⟨trivial,⟨rfl,rfl⟩,rfl,fun h => absurd h List.not_mem_nil⟩

section Print
variable {stdout : List Printed} {x : Printed}

theorem filter_print (hx : x ≠ .timeout) :
    (stdout ++ [x]).filter (· ≠ .timeout) = stdout.filter (· ≠ .timeout) ++ [x] := by
  rw [List.filter_append,List.filter_singleton]
  simp [hx]

theorem timeout_print (hx : x ≠ .timeout) (h : .timeout ∈ stdout ++ [x]) : .timeout ∈ stdout := by
  rcases List.mem_append.mp h with h | h
  · exact h
  · exact absurd (List.mem_singleton.mp h).symm hx

end Print

/- Before the search thread has returned, `main` prints nothing, and it does not look
at what that thread does. -/
theorem MainOk.searching (h : MainOk s) (hcreated : s.search ≠ .notCreated)
    (hreturned : ∀ num, s.search ≠ .returned num) :
    (∀ o, mainOutput o s.main = []) ∧
    ∀ s', s'.main = s.main → s'.timeout = s.timeout → MainOk s' := by
  obtain ⟨main,search,timeout,isDone,mutex,clock,o,stdout,stderr,status⟩ := s
  cases main with
  | createTimeout => exact absurd h.1 hcreated
  | createSearch => exact absurd h hcreated
  | joinTimeout | cancel | exitFailure =>
    refine ⟨fun o => rfl,fun s' hm _ => ?_⟩
    rw [MainOk,hm]
    exact trivial
  | testTimedout isTimedout =>
    refine ⟨fun o => rfl,fun s' hm ht => ?_⟩
    rw [MainOk,hm]
    exact ht.trans h
  | joinSearch =>
    refine ⟨fun o => rfl,fun s' hm ht => ?_⟩
    rw [MainOk,hm]
    exact ht.trans h
  | printCount numPorts | printHeading numPorts | exitSuccess numPorts => exact absurd h.2 (hreturned numPorts)
  | printIntArray numPorts i => exact absurd h.2.1 (hreturned numPorts)

/- Nor does it look at the timeout thread before that has returned. -/
theorem MainOk.timing (h : MainOk s) (hcreated : s.timeout ≠ .notCreated)
    (hreturned : ∀ b, s.timeout ≠ .returned b) :
    ∀ s', s'.main = s.main → s'.search = s.search → MainOk s' := by
  obtain ⟨main,search,timeout,isDone,mutex,clock,o,stdout,stderr,status⟩ := s
  cases main with
  | createTimeout => exact absurd h.2 hcreated
  | createSearch =>
    intro s' hm hs
    rw [MainOk,hm]
    exact hs.trans h
  | joinTimeout | cancel | exitFailure =>
    intro s' hm _
    rw [MainOk,hm]
    exact trivial
  | testTimedout isTimedout => exact absurd h (hreturned _)
  | joinSearch => exact absurd h (hreturned _)
  | printCount numPorts | printHeading numPorts | exitSuccess numPorts => exact absurd h.1 (hreturned _)
  | printIntArray numPorts i => exact absurd h.1 (hreturned _)

theorem mainStep_inv (h : Inv S s) (hstep : mainStep s = some s') : Inv S s' := by
  obtain ⟨main,search,timeout,isDone,mutex,clock,o,stdout,stderr,status⟩ := s
  obtain ⟨hsearch,hmain,hout,htime⟩ := h
  have hkept {x : Printed} (hx : x ≠ .timeout) (hm : .timeout ∈ stdout ++ [x]) : timeout = .returned true :=
    htime (timeout_print hx hm)
  cases main with
  | createTimeout =>
    cases hstep
    obtain ⟨hs,ht⟩ := hmain
    exact ⟨hsearch,hs,hout,fun hm => by cases ht.symm.trans (htime hm)⟩
  | createSearch =>
    cases hstep
    obtain rfl := hmain
    exact ⟨trivial,trivial,hout,htime⟩
  | joinTimeout =>
    cases timeout with
    | returned isTimedout =>
      cases hstep
      exact ⟨hsearch,rfl,hout,htime⟩
    | _ => cases hstep
  | testTimedout isTimedout =>
    cases hstep
    cases isTimedout with
    | true => exact ⟨hsearch,trivial,hout,htime⟩
    | false => exact ⟨hsearch,hmain,hout,htime⟩
  | cancel =>
    cases hstep
    exact ⟨hsearch,trivial,hout,htime⟩
  | exitFailure =>
    cases hstep
    exact ⟨hsearch,trivial,hout,htime⟩
  | joinSearch =>
    cases search with
    | returned num =>
      cases hstep
      exact ⟨hsearch,⟨hmain,rfl⟩,hout,htime⟩
    | _ => cases hstep
  | printCount numPorts =>
    cases hstep
    have hne : Printed.count numPorts ≠ .timeout := nofun
    refine ⟨hsearch,hmain,?_,hkept hne⟩
    change (stdout ++ [_]).filter _ = _
    rw [filter_print hne,hout,List.append_assoc]
    rfl
  | printHeading numPorts =>
    cases hstep
    have hne : Printed.heading ≠ .timeout := nofun
    refine ⟨hsearch,⟨hmain.1,hmain.2,Nat.zero_le _⟩,?_,hkept hne⟩
    change (stdout ++ [_]).filter _ = _
    rw [filter_print hne,hout,List.append_assoc]
    rfl
  | printIntArray numPorts i =>
    obtain ⟨ht,hs,hi⟩ := hmain
    unfold mainStep at hstep
    dsimp only at hstep
    split_ifs at hstep with hlt
    · cases hstep
      have hne : Printed.port (o i) ≠ .timeout := nofun
      refine ⟨hsearch,⟨ht,hs,hlt⟩,?_,hkept hne⟩
      change (stdout ++ [_]).filter _ = _
      rw [filter_print hne,hout,mainOutput,mainOutput,List.range_succ,List.map_append]
      simp only [List.append_assoc,List.map_singleton]
      rfl
    · cases hstep
      have hne : Printed.newline ≠ .timeout := nofun
      have hlast : i = numPorts := by omega
      refine ⟨hsearch,⟨ht,hs⟩,?_,hkept hne⟩
      change (stdout ++ [_]).filter _ = _
      rw [filter_print hne,hout,mainOutput,mainOutput,hlast]
      simp only [List.append_assoc]
      rfl
  | exitSuccess numPorts =>
    cases hstep
    exact ⟨hsearch,hmain,hout,htime⟩

theorem searchStep_inv (h : Inv S s) (hstep : searchStep S s = some s') : Inv S s' := by
  have hfree := h.main.searching
  obtain ⟨main,search,timeout,isDone,mutex,clock,o,stdout,stderr,status⟩ := s
  obtain ⟨hsearch,hmain,hout,htime⟩ := h
  cases search with
  | notCreated => cases hstep
  | returned num => cases hstep
  | started =>
    cases hstep
    obtain ⟨hquiet,hok⟩ := hfree nofun nofun
    have hne : Printed.getting ≠ .timeout := nofun
    refine ⟨⟨Nat.zero_le _,rfl⟩,hok _ rfl rfl,?_,fun hm => htime (timeout_print hne hm)⟩
    change (stdout ++ [_]).filter _ = _
    rw [filter_print hne,hout]
    change _ ++ mainOutput o main ++ _ = _ ++ mainOutput o main
    rw [hquiet]
    rfl
  | test num port =>
    obtain ⟨_,hok⟩ := hfree nofun nofun
    unfold searchStep at hstep
    dsimp only at hstep
    split_ifs at hstep with hlt
    · cases hstep
      exact ⟨⟨hlt,hsearch.2⟩,hok _ rfl rfl,hout,htime⟩
    · cases hstep
      have hlast : port = maxPort := Nat.le_antisymm hsearch.1 (Nat.le_of_not_lt hlt)
      have hdone : Holds S o num maxPort := hlast ▸ hsearch.2
      exact ⟨hdone,hok _ rfl rfl,hout,htime⟩
  | connect num port =>
    obtain ⟨hquiet,hok⟩ := hfree nofun nofun
    unfold searchStep at hstep
    dsimp only at hstep
    split_ifs at hstep with hp
    · cases hstep
      refine ⟨⟨hsearch.1,hsearch.2.store hp⟩,hok _ rfl rfl,?_,htime⟩
      change _ = _ ++ mainOutput _ main
      rw [hout,hquiet,hquiet]
      rfl
    · cases hstep
      exact ⟨⟨hsearch.1,hsearch.2.skip hp⟩,hok _ rfl rfl,hout,htime⟩
  | close num port =>
    cases hstep
    obtain ⟨_,hok⟩ := hfree nofun nofun
    exact ⟨hsearch,hok _ rfl rfl,hout,htime⟩
  | setDone num =>
    cases hstep
    obtain ⟨_,hok⟩ := hfree nofun nofun
    exact ⟨hsearch,hok _ rfl rfl,hout,htime⟩

theorem timeoutStep_inv (h : Inv S s) (hstep : timeoutStep s = some s') : Inv S s' := by
  have hfree := h.main.timing
  obtain ⟨main,search,timeout,isDone,mutex,clock,o,stdout,stderr,status⟩ := s
  obtain ⟨hsearch,hmain,hout,htime⟩ := h
  have hno (hr : timeout ≠ .returned true) {t : Timeout} : .timeout ∈ stdout → t = .returned true :=
    fun hm => absurd (htime hm) hr
  cases timeout with
  | notCreated => cases hstep
  | returned isTimedout => cases hstep
  | started | clock start | test start time | unlock start time done =>
    cases hstep
    exact ⟨hsearch,hfree nofun nofun _ rfl rfl,hout,hno nofun⟩
  | lock start time =>
    unfold timeoutStep at hstep
    dsimp only at hstep
    split_ifs at hstep
    cases hstep
    exact ⟨hsearch,hfree nofun nofun _ rfl rfl,hout,hno nofun⟩
  | report =>
    cases hstep
    refine ⟨hsearch,hfree nofun nofun _ rfl rfl,?_,fun _ => rfl⟩
    change (stdout ++ [_]).filter _ = _
    rw [List.filter_append,hout]
    exact List.append_nil _

theorem searchFails_some {localSocket : ℕ} {message : Bytes}
    (h : searchFails localSocket message s = some s') : ∃ text,s' = s.exitFailure text := by
  unfold searchFails at h
  split at h
  · split_ifs at h
    exact ⟨_,(Option.some.inj h).symm⟩
  · exact ⟨_,(Option.some.inj h).symm⟩
  · cases h

/- Every step of a thread keeps the invariant. -/
theorem step_inv {a : Action} (h : Inv S s) (hstep : step S s a = some s') : Inv S s' := by
  unfold step at hstep
  split_ifs at hstep
  cases a with
  | main => exact mainStep_inv h hstep
  | search => exact searchStep_inv h hstep
  | fails localSocket message =>
    obtain ⟨text,rfl⟩ := searchFails_some hstep
    exact ⟨h.search,h.main,h.output,h.timeout⟩
  | timeout => exact timeoutStep_inv h hstep
  | tick clocks =>
    cases hstep
    exact ⟨h.search,h.main,h.output,h.timeout⟩

theorem run_inv {tr : List (Scanner × Action)} (r : Run (step S) (initial openPorts) tr s) : Inv S s :=
  r.invariant initial_inv fun _ _ _ h hstep => step_inv h hstep

end TcpProjects.GetOpenPorts
