import TcpProjects.GetOpenPorts.Answer

/-! # How the port scanner ends

The search and `main` have a bounded number of steps, and so has the timeout thread once the
search is done or its ten seconds are over; until the process exits some thread can go on.
Status 1 means that ten seconds have passed or that a call has failed, and status 0 that
the list is printed. -/

namespace TcpProjects.GetOpenPorts
open Transition

variable {S : Finset ℕ} {s s' : Scanner} {a : Action}

/-! ### The steps that are left -/

def Main.left : Main → ℕ
  | .createTimeout => maxPort+8
  | .createSearch => maxPort+7
  | .joinTimeout => maxPort+6
  | .testTimedout _ => maxPort+5
  | .joinSearch => maxPort+4
  | .printCount numPorts => numPorts+3
  | .printHeading numPorts => numPorts+2
  | .printIntArray numPorts i => numPorts-i+1
  | .cancel => 1
  | .exitFailure | .exitSuccess _ => 0

def Search.left : Search → ℕ
  | .notCreated => 3*maxPort+4
  | .started => 3*maxPort+3
  | .test _ port => 3*(maxPort-port)+2
  | .connect _ port => 3*(maxPort-port)+1
  | .close _ port => 3*(maxPort-port)
  | .setDone _ => 1
  | .returned _ => 0

/- The thread leaves its loop at the next test. -/
def leaves (isDone : Bool) (time : ℕ) : Prop := isDone = true ∨ timeoutSeconds ≤ time

instance (isDone : Bool) (time : ℕ) : Decidable (leaves isDone time) :=
  inferInstanceAs (Decidable (_ ∨ _))

def Timeout.left (isDone : Bool) : Timeout → ℕ
  | .notCreated => 7
  | .started => 6
  | .clock _ => 5
  | .lock _ time => if leaves isDone time then 4 else 8
  | .test _ time => if leaves isDone time then 3 else 7
  | .unlock _ time isDone => if leaves isDone time then 2 else 6
  | .report => 1
  | .returned _ => 0

/- The exit is one more step. -/
def Scanner.working (s : Scanner) : ℕ := if s.status.isSome then 0 else s.main.left+s.search.left+1
def Scanner.left (s : Scanner) : ℕ := s.working+s.timeout.left s.isDone

/- The search is done, or ten seconds have passed since the timeout thread began. -/
def Late (s : Scanner) : Prop :=
  s.isDone = true ∨ match s.timeout with
    | .notCreated | .started => False
    | .clock start | .lock start _ | .test start _ | .unlock start _ _ =>
      start+timeoutSeconds*clocksPerSec ≤ s.clock
    | .report | .returned _ => True

/-! ### What the timeout thread keeps -/

def Timeout.locked : Timeout → Bool
  | .test _ _ | .unlock _ _ _ => true
  | _ => false

/- The time that was measured is not ahead of the clock. -/
def Timeout.Within (clock : ℕ) : Timeout → Prop
  | .notCreated | .started | .returned false => True
  | .clock start => start ≤ clock
  | .lock start time | .test start time | .unlock start time _ => start+time*clocksPerSec ≤ clock
  | .report | .returned true => timeoutSeconds*clocksPerSec ≤ clock

/- A message about a call that failed is the last on the standard error. -/
def Reported (s : Scanner) : Prop := ∃ text,ascii "[FAIL] " ++ text <:+ s.stderr

structure Timed (s : Scanner) : Prop where
  mutex : s.mutex = s.timeout.locked
  within : s.timeout.Within s.clock
  said : s.timeout = .returned true → .timeout ∈ s.stdout
  failed : s.main = .cancel ∨ s.main = .exitFailure → s.timeout = .returned true
  status : s.status = none ∨ (s.status = some 0 ∧ ∃ numPorts,s.main = .exitSuccess numPorts) ∨
    (s.status = some 1 ∧ (s.main = .exitFailure ∨ Reported s))

theorem Timeout.Within.tick {t : Timeout} {clock : ℕ} (h : t.Within clock) (clocks : ℕ) :
    t.Within (clock+clocks) := by
  cases t with
  | returned isTimedout =>
    cases isTimedout with
    | false => trivial
    | true => exact Nat.le_add_right_of_le h
  | notCreated | started => trivial
  | _ => exact Nat.le_add_right_of_le h

theorem measured {start clock : ℕ} (h : start ≤ clock) :
    start+(clock-start)/clocksPerSec*clocksPerSec ≤ clock := by
  have hle := Nat.div_mul_le_self (clock-start) clocksPerSec
  omega

/-! ### What the threads do -/

theorem working_lt (hnone : s.status = none) (h : s'.status.isSome = true ∨
    s'.main.left+s'.search.left < s.main.left+s.search.left) : s'.working < s.working := by
  have hbefore : s.working = s.main.left+s.search.left+1 := by
    rw [Scanner.working,hnone]
    rfl
  rw [hbefore,Scanner.working]
  rcases h with hexit | hless
  · rw [if_pos hexit]
    exact Nat.succ_pos _
  · split_ifs
    · exact Nat.succ_pos _
    · omega

/- What `main` leaves as it is. -/
theorem mainStep_frame (h : Inv S s) (hnone : s.status = none) (hstep : mainStep s = some s') :
    s'.working < s.working ∧ s'.isDone = s.isDone ∧ s'.mutex = s.mutex ∧ s'.clock = s.clock ∧
      (s'.timeout = s.timeout ∨ s.timeout = .notCreated ∧ s'.timeout = .started) ∧
      (∀ x ∈ s.stdout,x ∈ s'.stdout) := by
  obtain ⟨main,search,timeout,isDone,mutex,clock,o,stdout,stderr,status⟩ := s
  obtain ⟨hsearch,hmain,_,_⟩ := h
  obtain rfl : status = none := hnone
  cases main with
  | createTimeout =>
    cases hstep
    refine ⟨working_lt rfl (Or.inr ?_),rfl,rfl,rfl,Or.inr ⟨hmain.2,rfl⟩,fun x hx => hx⟩
    simp only [Main.left]
    omega
  | createSearch =>
    cases hstep
    obtain rfl := hmain
    refine ⟨working_lt rfl (Or.inr ?_),rfl,rfl,rfl,Or.inl rfl,fun x hx => hx⟩
    simp only [Main.left,Search.left]
    omega
  | joinTimeout =>
    cases timeout with
    | returned isTimedout =>
      cases hstep
      refine ⟨working_lt rfl (Or.inr ?_),rfl,rfl,rfl,Or.inl rfl,fun x hx => hx⟩
      simp only [Main.left]
      omega
    | _ => cases hstep
  | testTimedout isTimedout =>
    cases hstep
    refine ⟨working_lt rfl (Or.inr ?_),rfl,rfl,rfl,Or.inl rfl,fun x hx => hx⟩
    cases isTimedout with
    | true =>
      simp only [Main.left,if_true]
      omega
    | false =>
      simp only [Main.left,Bool.false_eq_true,if_false]
      omega
  | cancel =>
    cases hstep
    refine ⟨working_lt rfl (Or.inr ?_),rfl,rfl,rfl,Or.inl rfl,fun x hx => hx⟩
    simp only [Main.left]
    omega
  | exitFailure =>
    cases hstep
    exact ⟨working_lt rfl (Or.inl rfl),rfl,rfl,rfl,Or.inl rfl,fun x hx => hx⟩
  | joinSearch =>
    cases search with
    | returned num =>
      cases hstep
      have hnum : num ≤ maxPort := (Holds.length hsearch).trans_le (found_length S maxPort)
      refine ⟨working_lt rfl (Or.inr ?_),rfl,rfl,rfl,Or.inl rfl,fun x hx => hx⟩
      simp only [Main.left]
      omega
    | _ => cases hstep
  | printCount numPorts =>
    cases hstep
    refine ⟨working_lt rfl (Or.inr ?_),rfl,rfl,rfl,Or.inl rfl,fun x hx => List.mem_append_left _ hx⟩
    simp only [Main.left,Scanner.print]
    omega
  | printHeading numPorts =>
    cases hstep
    refine ⟨working_lt rfl (Or.inr ?_),rfl,rfl,rfl,Or.inl rfl,fun x hx => List.mem_append_left _ hx⟩
    simp only [Main.left,Scanner.print]
    omega
  | printIntArray numPorts i =>
    unfold mainStep at hstep
    dsimp only at hstep
    split_ifs at hstep with hlt
    · cases hstep
      refine ⟨working_lt rfl (Or.inr ?_),rfl,rfl,rfl,Or.inl rfl,fun x hx => List.mem_append_left _ hx⟩
      simp only [Main.left,Scanner.print]
      omega
    · cases hstep
      refine ⟨working_lt rfl (Or.inr ?_),rfl,rfl,rfl,Or.inl rfl,fun x hx => List.mem_append_left _ hx⟩
      simp only [Main.left,Scanner.print]
      omega
  | exitSuccess numPorts =>
    cases hstep
    exact ⟨working_lt rfl (Or.inl rfl),rfl,rfl,rfl,Or.inl rfl,fun x hx => hx⟩

/- What the search leaves as it is. -/
theorem searchStep_frame (h : Inv S s) (hnone : s.status = none) (hstep : searchStep S s = some s') :
    s'.working < s.working ∧ (s.isDone = true → s'.isDone = true) ∧ s'.main = s.main ∧
      s'.timeout = s.timeout ∧ s'.mutex = s.mutex ∧ s'.clock = s.clock ∧ s'.status = s.status ∧
      (∀ x ∈ s.stdout,x ∈ s'.stdout) := by
  obtain ⟨main,search,timeout,isDone,mutex,clock,o,stdout,stderr,status⟩ := s
  obtain ⟨hsearch,_,_,_⟩ := h
  obtain rfl : status = none := hnone
  cases search with
  | notCreated => cases hstep
  | returned num => cases hstep
  | started =>
    cases hstep
    refine ⟨working_lt rfl (Or.inr ?_),fun hd => hd,rfl,rfl,rfl,rfl,rfl,fun x hx => List.mem_append_left _ hx⟩
    simp only [Search.left,Scanner.print]
    omega
  | test num port =>
    unfold searchStep at hstep
    dsimp only at hstep
    split_ifs at hstep with hlt
    · cases hstep
      refine ⟨working_lt rfl (Or.inr ?_),fun hd => hd,rfl,rfl,rfl,rfl,rfl,fun x hx => hx⟩
      simp only [Search.left]
      omega
    · cases hstep
      refine ⟨working_lt rfl (Or.inr ?_),fun hd => hd,rfl,rfl,rfl,rfl,rfl,fun x hx => hx⟩
      simp only [Search.left]
      omega
  | connect num port =>
    unfold searchStep at hstep
    dsimp only at hstep
    split_ifs at hstep with hopen
    · cases hstep
      refine ⟨working_lt rfl (Or.inr ?_),fun hd => hd,rfl,rfl,rfl,rfl,rfl,fun x hx => hx⟩
      simp only [Search.left]
      omega
    · cases hstep
      refine ⟨working_lt rfl (Or.inr ?_),fun hd => hd,rfl,rfl,rfl,rfl,rfl,fun x hx => hx⟩
      simp only [Search.left]
      omega
  | close num port =>
    cases hstep
    have hport := hsearch.1
    refine ⟨working_lt rfl (Or.inr ?_),fun hd => hd,rfl,rfl,rfl,rfl,rfl,fun x hx => hx⟩
    simp only [Search.left]
    omega
  | setDone num =>
    cases hstep
    refine ⟨working_lt rfl (Or.inr ?_),fun _ => rfl,rfl,rfl,rfl,rfl,rfl,fun x hx => hx⟩
    simp only [Search.left]
    omega

/- The timeout thread leaves the rest as it is, and keeps what it keeps. -/
theorem timeoutStep_frame (h : Timed s) (hstep : timeoutStep s = some s') :
    s'.working = s.working ∧ s'.isDone = s.isDone ∧ s'.main = s.main ∧ s'.clock = s.clock ∧
      s'.status = s.status ∧ s'.mutex = s'.timeout.locked ∧ s'.timeout.Within s'.clock ∧
      (s'.timeout = .returned true → .timeout ∈ s'.stdout) ∧ s.timeout ≠ .returned true ∧
      (Late s → Late s' ∧ s'.timeout.left s'.isDone < s.timeout.left s.isDone) := by
  obtain ⟨main,search,timeout,isDone,mutex,clock,o,stdout,stderr,status⟩ := s
  obtain ⟨hmutex,hwithin,_,_,_⟩ := h
  cases timeout with
  | notCreated => cases hstep
  | returned isTimedout => cases hstep
  | started =>
    cases hstep
    refine ⟨rfl,rfl,rfl,rfl,rfl,hmutex,Nat.le_refl _,(fun h => by cases h),(fun h => by cases h),?_⟩
    rintro (hd | hfalse)
    · exact ⟨Or.inl hd,Nat.lt_succ_self _⟩
    · exact hfalse.elim
  | clock start =>
    cases hstep
    refine ⟨rfl,rfl,rfl,rfl,rfl,hmutex,measured hwithin,(fun h => by cases h),(fun h => by cases h),?_⟩
    intro hlate
    refine ⟨hlate,?_⟩
    have hleaves : leaves isDone ((clock-start)/clocksPerSec) := by
      refine hlate.imp id fun hclock => ?_
      change start+timeoutSeconds*clocksPerSec ≤ clock at hclock
      exact (Nat.le_div_iff_mul_le (by decide)).mpr (by omega)
    simp only [Timeout.left,if_pos hleaves]
    omega
  | lock start time =>
    unfold timeoutStep at hstep
    dsimp only at hstep
    split_ifs at hstep with hlocked
    cases hstep
    refine ⟨rfl,rfl,rfl,rfl,rfl,rfl,hwithin,(fun h => by cases h),(fun h => by cases h),?_⟩
    intro hlate
    refine ⟨hlate,?_⟩
    simp only [Timeout.left]
    split_ifs <;> omega
  | test start time =>
    cases hstep
    refine ⟨rfl,rfl,rfl,rfl,rfl,hmutex,hwithin,(fun h => by cases h),(fun h => by cases h),?_⟩
    intro hlate
    refine ⟨hlate,?_⟩
    simp only [Timeout.left]
    split_ifs <;> omega
  | unlock start time done =>
    cases hstep
    cases done with
    | true =>
      refine ⟨rfl,rfl,rfl,rfl,rfl,rfl,trivial,(fun h => by cases h),(fun h => by cases h),?_⟩
      intro hlate
      exact ⟨Or.inr trivial,by simp [Timeout.left,leaves]⟩
    | false =>
      change start+time*clocksPerSec ≤ clock at hwithin
      by_cases htime : time < timeoutSeconds
      · simp only [Bool.false_eq_true,if_false,if_pos htime]
        refine ⟨rfl,trivial,trivial,trivial,trivial,rfl,show start ≤ clock by omega,(fun h => by cases h),
          (fun h => by cases h),fun hlate => ⟨hlate,?_⟩⟩
        have hstays : ¬ leaves false time := by
          unfold leaves
          rw [not_or]
          exact ⟨Bool.false_ne_true,by omega⟩
        simp only [Timeout.left,if_neg hstays]
        omega
      · have hover := Nat.mul_le_mul_right clocksPerSec (Nat.le_of_not_lt htime)
        simp only [Bool.false_eq_true,if_false,if_neg htime]
        refine ⟨rfl,trivial,trivial,trivial,trivial,rfl,show timeoutSeconds*clocksPerSec ≤ clock by omega,
          (fun h => by cases h),(fun h => by cases h),fun _ => ⟨Or.inr trivial,?_⟩⟩
        have hleaves : leaves false time := Or.inr (Nat.le_of_not_lt htime)
        simp only [Timeout.left,if_pos hleaves]
        omega
  | report =>
    cases hstep
    refine ⟨rfl,rfl,rfl,rfl,rfl,hmutex,hwithin,(fun _ => List.mem_append_right _ (List.mem_singleton_self _)),
      (fun h => by cases h),fun _ => ⟨Or.inr trivial,Nat.lt_succ_self _⟩⟩

/-! ### Every step -/

theorem step_cases (h : step S s a = some s') : s.status = none ∧
    ((a = .main ∧ mainStep s = some s') ∨ (a = .search ∧ searchStep S s = some s') ∨
      (∃ localSocket message text,a = .fails localSocket message ∧ s' = s.exitFailure text) ∨
      (a = .timeout ∧ timeoutStep s = some s') ∨
      ∃ clocks,a = .tick clocks ∧ s' = { s with clock := s.clock+clocks }) := by
  unfold step at h
  split_ifs at h with hstatus
  rw [Bool.not_eq_true,Option.isSome_eq_false_iff,Option.isNone_iff_eq_none] at hstatus
  refine ⟨hstatus,?_⟩
  cases a with
  | main => exact Or.inl ⟨rfl,h⟩
  | search => exact Or.inr (Or.inl ⟨rfl,h⟩)
  | fails localSocket message =>
    obtain ⟨text,hs⟩ := searchFails_some h
    exact Or.inr (Or.inr (Or.inl ⟨localSocket,message,text,rfl,hs⟩))
  | timeout => exact Or.inr (Or.inr (Or.inr (Or.inl ⟨rfl,h⟩)))
  | tick clocks => exact Or.inr (Or.inr (Or.inr (Or.inr ⟨clocks,rfl,(Option.some.inj h).symm⟩)))

/- Only a timeout leads to the failure. -/
theorem mainStep_exit (h : Inv S s) (hnone : s.status = none) (hstep : mainStep s = some s') :
    (s'.main = .cancel ∨ s'.main = .exitFailure →
      s.timeout = .returned true ∨ s.main = .cancel ∨ s.main = .exitFailure) ∧
    (s'.status = none ∨ (s'.status = some 0 ∧ ∃ numPorts,s'.main = .exitSuccess numPorts) ∨
      (s'.status = some 1 ∧ (s'.main = .exitFailure ∨ Reported s'))) := by
  obtain ⟨main,search,timeout,isDone,mutex,clock,o,stdout,stderr,status⟩ := s
  obtain ⟨_,hmain,_,_⟩ := h
  obtain rfl : status = none := hnone
  cases main with
  | testTimedout isTimedout =>
    cases hstep
    cases isTimedout with
    | true => exact ⟨fun _ => Or.inl hmain,Or.inl rfl⟩
    | false => exact ⟨(fun he => by rcases he with he | he <;> cases he),Or.inl rfl⟩
  | cancel =>
    cases hstep
    exact ⟨fun _ => Or.inr (Or.inl rfl),Or.inl rfl⟩
  | exitFailure =>
    cases hstep
    exact ⟨fun _ => Or.inr (Or.inr rfl),Or.inr (Or.inr ⟨rfl,Or.inl rfl⟩)⟩
  | exitSuccess numPorts =>
    cases hstep
    exact ⟨(fun he => by rcases he with he | he <;> cases he),Or.inr (Or.inl ⟨rfl,numPorts,rfl⟩)⟩
  | joinTimeout =>
    cases timeout with
    | returned isTimedout =>
      cases hstep
      exact ⟨(fun he => by rcases he with he | he <;> cases he),Or.inl rfl⟩
    | _ => cases hstep
  | joinSearch =>
    cases search with
    | returned num =>
      cases hstep
      exact ⟨(fun he => by rcases he with he | he <;> cases he),Or.inl rfl⟩
    | _ => cases hstep
  | printIntArray numPorts i =>
    unfold mainStep at hstep
    dsimp only at hstep
    split_ifs at hstep <;> cases hstep <;>
      exact ⟨(fun he => by rcases he with he | he <;> cases he),Or.inl rfl⟩
  | _ =>
    cases hstep
    exact ⟨(fun he => by rcases he with he | he <;> cases he),Or.inl rfl⟩

theorem mainStep_timed (h : Timed s) (hinv : Inv S s) (hnone : s.status = none)
    (hstep : mainStep s = some s') : Timed s' := by
  obtain ⟨_,_,hmutex,hclock,htimeout,hstdout⟩ := mainStep_frame hinv hnone hstep
  obtain ⟨hfailed,hstatus⟩ := mainStep_exit hinv hnone hstep
  have hreturned : s.timeout = .returned true → s'.timeout = .returned true := by
    intro hr
    rcases htimeout with htimeout | ⟨hbefore,_⟩
    · rw [htimeout,hr]
    · cases hbefore.symm.trans hr
  have hrest : s'.mutex = s'.timeout.locked ∧ s'.timeout.Within s'.clock ∧
      (s'.timeout = .returned true → .timeout ∈ s'.stdout) := by
    rw [hmutex,hclock,h.mutex]
    rcases htimeout with htimeout | ⟨hbefore,hafter⟩
    · rw [htimeout]
      exact ⟨rfl,h.within,fun hr => hstdout _ (h.said hr)⟩
    · rw [hbefore,hafter]
      exact ⟨rfl,trivial,fun hr => by cases hr⟩
  refine ⟨hrest.1,hrest.2.1,hrest.2.2,fun he => hreturned ?_,hstatus⟩
  rcases hfailed he with hr | hmain
  · exact hr
  · exact h.failed hmain

theorem step_timed (h : Timed s) (hinv : Inv S s) (hstep : step S s a = some s') : Timed s' := by
  obtain ⟨hnone,⟨rfl,hthread⟩ | ⟨rfl,hthread⟩ | ⟨_,_,text,rfl,rfl⟩ | ⟨rfl,hthread⟩ | ⟨clocks,rfl,rfl⟩⟩ :=
    step_cases hstep
  · exact mainStep_timed h hinv hnone hthread
  · obtain ⟨_,_,hmain,htimeout,hmutex,hclock,hstatus,hstdout⟩ := searchStep_frame hinv hnone hthread
    refine ⟨?_,?_,?_,?_,?_⟩
    · rw [hmutex,htimeout,h.mutex]
    · rw [htimeout,hclock]
      exact h.within
    · rw [htimeout]
      exact fun hr => hstdout _ (h.said hr)
    · rw [hmain,htimeout]
      exact h.failed
    · exact Or.inl (hstatus.trans hnone)
  · have hreported : Reported (s.exitFailure text) :=
      ⟨text ++ ascii "\n",s.stderr,by rw [Scanner.exitFailure,List.append_assoc]⟩
    exact ⟨h.mutex,h.within,h.said,h.failed,Or.inr (Or.inr ⟨rfl,Or.inr hreported⟩)⟩
  · obtain ⟨_,_,hmain,_,hstatus,hmutex,hwithin,hsaid,hnot,_⟩ := timeoutStep_frame h hthread
    refine ⟨hmutex,hwithin,hsaid,fun he => ?_,Or.inl (hstatus.trans hnone)⟩
    rw [hmain] at he
    exact absurd (h.failed he) hnot
  · exact ⟨h.mutex,h.within.tick clocks,h.said,h.failed,h.status⟩

/- A thread is created before anything waits for it. -/
structure Created (s : Scanner) : Prop where
  timeout : s.timeout = .notCreated → s.main = .createTimeout
  search : s.search = .notCreated → s.main = .createTimeout ∨ s.main = .createSearch

theorem mainStep_created (h : Created s) (hstep : mainStep s = some s') : Created s' := by
  obtain ⟨main,search,timeout,isDone,mutex,clock,o,stdout,stderr,status⟩ := s
  obtain ⟨htimeout,hsearch⟩ := h
  have hkept {u : Scanner} (ht : u.timeout = timeout) (hs : u.search = search)
      (hnot : main ≠ .createTimeout ∧ main ≠ .createSearch) : Created u := by
    refine ⟨fun he => absurd (htimeout (ht.symm.trans he)) hnot.1,fun he => ?_⟩
    rcases hsearch (hs.symm.trans he) with hm | hm
    · exact absurd hm hnot.1
    · exact absurd hm hnot.2
  cases main with
  | createTimeout =>
    cases hstep
    exact ⟨(fun he => by cases he),fun _ => Or.inr rfl⟩
  | createSearch =>
    cases hstep
    exact ⟨(fun he => by cases htimeout he),fun he => by cases he⟩
  | joinTimeout =>
    cases timeout with
    | returned isTimedout =>
      cases hstep
      exact hkept rfl rfl ⟨by simp,by simp⟩
    | _ => cases hstep
  | joinSearch =>
    cases search with
    | returned num =>
      cases hstep
      exact hkept rfl rfl ⟨by simp,by simp⟩
    | _ => cases hstep
  | printIntArray numPorts i =>
    unfold mainStep at hstep
    dsimp only at hstep
    split_ifs at hstep <;> cases hstep <;> exact hkept rfl rfl ⟨by simp,by simp⟩
  | _ =>
    cases hstep
    exact hkept rfl rfl ⟨by simp,by simp⟩

theorem step_created (h : Created s) (hstep : step S s a = some s') : Created s' := by
  obtain ⟨_,⟨rfl,hthread⟩ | ⟨rfl,hthread⟩ | ⟨_,_,text,rfl,rfl⟩ | ⟨rfl,hthread⟩ | ⟨clocks,rfl,rfl⟩⟩ :=
    step_cases hstep
  · exact mainStep_created h hthread
  · obtain ⟨hcreated,hother⟩ : s'.search ≠ .notCreated ∧ s'.timeout = s.timeout ∧ s'.main = s.main := by
      unfold searchStep at hthread
      split at hthread <;> (try split_ifs at hthread) <;> cases hthread <;> exact ⟨by simp,rfl,rfl⟩
    refine ⟨?_,fun he => absurd he hcreated⟩
    rw [hother.1,hother.2]
    exact h.timeout
  · exact ⟨h.timeout,h.search⟩
  · obtain ⟨hcreated,hother⟩ : s'.timeout ≠ .notCreated ∧ s'.search = s.search ∧ s'.main = s.main := by
      unfold timeoutStep at hthread
      split at hthread <;> (try split_ifs at hthread) <;> cases hthread <;> refine ⟨?_,rfl,rfl⟩ <;>
        (try dsimp only) <;> simp
    refine ⟨fun he => absurd he hcreated,?_⟩
    rw [hother.1,hother.2]
    exact h.search
  · exact ⟨h.timeout,h.search⟩

structure Reached (S : Finset ℕ) (s : Scanner) : Prop where
  inv : Inv S s
  timed : Timed s
  created : Created s

theorem Reached.next (h : Reached S s) (hstep : step S s a = some s') : Reached S s' :=
  ⟨step_inv h.inv hstep,step_timed h.timed h.inv hstep,step_created h.created hstep⟩

theorem Main.left_le (h : Inv S s) : s.main.left ≤ maxPort+8 := by
  have hmain := h.main
  have hsearch := h.search
  have hfew {numPorts : ℕ} (hs : s.search = .returned numPorts) : numPorts ≤ maxPort := by
    rw [hs] at hsearch
    exact (Holds.length hsearch).trans_le (found_length S maxPort)
  cases hpc : s.main with
  | printCount numPorts | printHeading numPorts =>
    rw [MainOk,hpc] at hmain
    have hle := hfew hmain.2
    simp only [Main.left]
    omega
  | printIntArray numPorts i =>
    rw [MainOk,hpc] at hmain
    have hle := hfew hmain.2.1
    simp only [Main.left]
    omega
  | _ =>
    simp only [Main.left]
    omega

theorem Search.left_le (t : Search) : t.left ≤ 3*maxPort+4 := by
  cases t <;> simp only [Search.left] <;> omega

theorem Timeout.left_le (t : Timeout) (isDone : Bool) : t.left isDone ≤ 8 := by
  cases t <;> simp only [Timeout.left] <;> (try split_ifs) <;> omega

end TcpProjects.GetOpenPorts
