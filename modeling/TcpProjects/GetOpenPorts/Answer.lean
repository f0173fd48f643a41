import TcpProjects.GetOpenPorts.Scanner
import Mathlib.Data.List.Sort

/-! # The list of open ports

The loop over the ports ends below `MAX_PORT`, which is itself a port. The list is
exact if port 65535 is not open, and lacks that port if it is. -/

namespace TcpProjects.GetOpenPorts
open Transition

variable {S : Finset ℕ} {s s' : Scanner} {openPorts : ℕ → ℕ} {tr : List (Scanner × Action)}

/- Everything that is printed when the list is. -/
def answer (count : ℕ) (ports : List ℕ) : List Printed :=
  .getting :: .count count :: .heading :: ports.map .port ++ [.newline]

theorem answer_text (count : ℕ) (ports : List ℕ) : (answer count ports).flatMap Printed.text =
    ascii "[OK] Getting open ports...\n" ++
    ascii "Number of open ports = " ++ decimal count ++ ascii "\n" ++
    ascii "Opened ports: " ++ ports.flatMap (fun p => decimal p ++ ascii " ") ++ ascii "\n" := by
  rw [answer,List.cons_append,List.cons_append,List.cons_append,List.flatMap_cons,List.flatMap_cons,
    List.flatMap_cons,List.flatMap_append,List.flatMap_map,List.flatMap_singleton]
  simp only [Printed.text,List.append_assoc]

/- What the port scanner is to print, where it prints a list. -/
structure Exact (S : Finset ℕ) (tr : List (Scanner × Action)) (s : Scanner) : Prop where
  listed : .newline ∈ s.stdout → ∃ ports : List ℕ, ports.Pairwise (· < ·) ∧
    (∀ p, p ∈ ports ↔ p ∈ S) ∧ s.stdout = answer S.card ports
  inside : ∀ x ∈ tr, ∀ i, written S x.1 x.2 = some i → i < maxPort
  timeout : .timeout ∈ s.stdout → ∀ x ∈ s.stdout, x = .getting ∨ x = .timeout

/-! ### In every run -/

theorem mem_output (h : Inv S s) {x : Printed} (hx : x ∈ s.stdout) (hne : x ≠ .timeout) :
    x = .getting ∨ x ∈ mainOutput s.openPorts s.main := by
  have hm : x ∈ s.stdout.filter (· ≠ .timeout) := List.mem_filter.mpr ⟨hx,decide_eq_true hne⟩
  rw [h.output] at hm
  rcases List.mem_append.mp hm with hm | hm
  · left
    cases hs : s.search with
    | notCreated | started =>
      rw [hs] at hm
      cases hm
    | _ =>
      rw [hs] at hm
      exact List.mem_singleton.mp hm
  · exact Or.inr hm

/- After a timeout nothing is printed by `main`. -/
theorem Inv.timed_out (h : Inv S s) (ht : .timeout ∈ s.stdout) :
    ∀ x ∈ s.stdout, x = .getting ∨ x = .timeout := by
  intro x hx
  have hr := h.timeout ht
  have hmain := h.main
  by_cases hne : x = .timeout
  · exact Or.inr hne
  · refine Or.inl ((mem_output h hx hne).resolve_right fun hm => ?_)
    cases hpc : s.main with
    | printHeading numPorts | exitSuccess numPorts =>
      rw [MainOk,hpc] at hmain
      cases hr.symm.trans hmain.1
    | printIntArray numPorts i =>
      rw [MainOk,hpc] at hmain
      cases hr.symm.trans hmain.1
    | _ =>
      rw [hpc] at hm
      cases hm

theorem answer_output (num count : ℕ) (ports : List ℕ) :
    searchOutput (.returned num) ++ ([.count count,.heading] ++ ports.map .port ++ [.newline]) =
      answer count ports := rfl

/- The list that is printed holds the open ports below 65535. -/
theorem Inv.listed (h : Inv S s) (hn : .newline ∈ s.stdout) :
    s.stdout = answer (found S maxPort).length (found S maxPort) := by
  have hm := (mem_output h hn nofun).resolve_left nofun
  obtain ⟨numPorts,hpc⟩ : ∃ numPorts, s.main = .exitSuccess numPorts := by
    cases hpc : s.main with
    | exitSuccess numPorts => exact ⟨numPorts,rfl⟩
    | printIntArray numPorts i =>
      rw [hpc,mainOutput] at hm
      simp at hm
    | printHeading numPorts =>
      rw [hpc,mainOutput] at hm
      simp at hm
    | _ =>
      rw [hpc] at hm
      cases hm
  have hmain := h.main
  rw [MainOk,hpc] at hmain
  obtain ⟨ht,hs⟩ := hmain
  have hholds : Holds S s.openPorts numPorts maxPort := by
    have hsearch := h.search
    rwa [hs] at hsearch
  have hno : .timeout ∉ s.stdout := fun hx => by cases ht.symm.trans (h.timeout hx)
  have hall : s.stdout.filter (· ≠ .timeout) = s.stdout := by
    refine List.filter_eq_self.mpr fun x hx => decide_eq_true ?_
    rintro rfl
    exact hno hx
  have hports : (List.range numPorts).map (fun j => Printed.port (s.openPorts j)) =
      (found S maxPort).map .port := by
    rw [← hholds,List.map_map]
    rfl
  -- By name, as `rfl` would evaluate the list.
  rw [← hall,h.output,hs,hpc,mainOutput,hports,hholds.length]
  exact answer_output _ _ _

theorem Inv.written_inside {a : Action} {i : ℕ} (h : Inv S s) (hw : written S s a = some i) :
    i < maxPort := by
  cases a with
  | search =>
    rw [written] at hw
    split at hw
    · next num port hs =>
      have hsearch := h.search
      rw [hs] at hsearch
      split_ifs at hw
      obtain rfl := Option.some.inj hw
      have hle := found_length S port
      rw [← Holds.length hsearch.2] at hle
      exact Nat.lt_of_le_of_lt hle hsearch.1
    · cases hw
  | _ => cases hw

/-! ### A run that prints the list -/

theorem step_main (S : Finset ℕ) (h : s.status = none) : step S s .main = mainStep s :=
  if_neg (by
    rw [h]
    nofun)

theorem step_search (S : Finset ℕ) (h : s.status = none) : step S s .search = searchStep S s :=
  if_neg (by
    rw [h]
    nofun)

/- One round of the loop over the ports. -/
theorem search_round {num port : ℕ} (hlt : port < maxPort) (hstatus : s.status = none)
    (hs : s.search = .test num port) : ∃ tr num' o, Run (step S) s tr
      { s with search := .test num' (port+1), openPorts := o } := by
  have htest : step S s .search = some { s with search := .connect num port } := by
    rw [step_search S hstatus]
    simp only [searchStep,hs]
    exact if_pos hlt
  have hclose (num' : ℕ) (o : ℕ → ℕ) :
      step S { s with search := .close num' port, openPorts := o } .search =
        some { s with search := .test num' (port+1), openPorts := o } := by
    rw [step_search S (by exact hstatus)]
    rfl
  by_cases hp : port ∈ S
  · have hconnect : step S { s with search := .connect num port } .search =
        some { s with search := .close (num+1) port, openPorts := Function.update s.openPorts num port } := by
      rw [step_search S (by exact hstatus)]
      exact if_pos hp
    exact ⟨_,num+1,_,Run.cons htest (Run.cons hconnect (Run.cons (hclose _ _) Run.start))⟩
  · have hconnect : step S { s with search := .connect num port } .search =
        some { s with search := .close num port } := by
      rw [step_search S (by exact hstatus)]
      exact if_neg hp
    exact ⟨_,num,s.openPorts,Run.cons htest (Run.cons hconnect (Run.cons (hclose _ _) Run.start))⟩

theorem search_loop (k : ℕ) {num port : ℕ} (hk : port+k = maxPort) (hstatus : s.status = none)
    (hs : s.search = .test num port) : ∃ tr num' o, Run (step S) s tr
      { s with search := .test num' maxPort, openPorts := o } := by
  induction k generalizing s num port with
  | zero =>
    obtain rfl : port = maxPort := hk
    refine ⟨[],num,s.openPorts,?_⟩
    rw [← hs]
    exact Run.start
  | succ k ih =>
    obtain ⟨tr,n,o,r⟩ := search_round (S := S) (show port < maxPort by omega) hstatus hs
    obtain ⟨tr',num',o',r'⟩ := ih (s := { s with search := .test n (port+1), openPorts := o })
      (show port+1+k = maxPort by omega) hstatus rfl
    exact ⟨tr ++ tr',num',o',r.append r'⟩

theorem print_loop (k : ℕ) {numPorts i : ℕ} (hk : i+k = numPorts) (hstatus : s.status = none)
    (hs : s.main = .printIntArray numPorts i) : ∃ tr s', Run (step S) s tr s' ∧ .newline ∈ s'.stdout := by
  induction k generalizing s i with
  | zero =>
    have hstep : step S s .main = some { s.print .newline with main := .exitSuccess numPorts } := by
      rw [step_main S hstatus]
      simp only [mainStep,hs]
      exact if_neg (by omega)
    exact ⟨_,_,Run.start.next hstep,List.mem_append_right _ (List.mem_singleton_self _)⟩
  | succ k ih =>
    have hstep : step S s .main =
        some { s.print (.port (s.openPorts i)) with main := .printIntArray numPorts (i+1) } := by
      rw [step_main S hstatus]
      simp only [mainStep,hs]
      exact if_pos (by omega)
    obtain ⟨tr,s',r,hn⟩ := ih
      (s := { s.print (.port (s.openPorts i)) with main := .printIntArray numPorts (i+1) })
      (show i+1+k = numPorts by omega) hstatus rfl
    exact ⟨_,s',Run.cons hstep r,hn⟩

/- Whatever is open, there is a run without a timeout. -/
theorem exists_listed (S : Finset ℕ) (openPorts : ℕ → ℕ) :
    ∃ tr s, Run (step S) (initial openPorts) tr s ∧ .newline ∈ s.stdout := by
  have hstart : Run (step S) (initial openPorts) _
      ⟨.joinTimeout,.test 0 0,.started,false,false,0,openPorts,[.getting],[],none⟩ :=
    exec_run (show exec (step S) (initial openPorts) [.main,.main,.search] = _ from rfl)
  obtain ⟨_,num,o,hsearch⟩ := search_loop (S := S)
    (s := ⟨.joinTimeout,.test 0 0,.started,false,false,0,openPorts,[.getting],[],none⟩) maxPort
    (Nat.zero_add _) rfl rfl
  have hdone : step S ⟨.joinTimeout,.test num maxPort,.started,false,false,0,o,[.getting],[],none⟩ .search =
      some ⟨.joinTimeout,.setDone num,.started,false,false,0,o,[.getting],
        ascii "[OK] All possible ports tested\n",none⟩ := by
    rw [step_search S rfl]
    simp only [searchStep,Nat.lt_irrefl,↓reduceIte,List.nil_append]
  have hjoin : Run (step S) ⟨.joinTimeout,.setDone num,.started,false,false,0,o,[.getting],
        ascii "[OK] All possible ports tested\n",none⟩ _
      ⟨.printIntArray num 0,.returned num,.returned false,true,false,0,o,
        [.getting,.count num,.heading],ascii "[OK] All possible ports tested\n",none⟩ :=
    exec_run (show exec (step S) _ [.search,.timeout,.timeout,.timeout,.timeout,.timeout,
      .main,.main,.main,.main,.main] = _ from rfl)
  obtain ⟨_,s,hprint,hn⟩ := print_loop (S := S) (s := ⟨.printIntArray num 0,.returned num,.returned false,
    true,false,0,o,[.getting,.count num,.heading],ascii "[OK] All possible ports tested\n",none⟩) num
    (Nat.zero_add _) rfl rfl
  exact ⟨_,s,(((hstart.append hsearch).next hdone).append hjoin).append hprint,hn⟩

/-! ### The answer -/

theorem mem_found {port p : ℕ} : p ∈ found S port ↔ p < port ∧ p ∈ S := by
  rw [found,List.mem_filter,List.mem_range,decide_eq_true_eq]

theorem found_sorted (S : Finset ℕ) (port : ℕ) : (found S port).Pairwise (· < ·) :=
  List.pairwise_lt_range.filter _

theorem answer_ports {count count' : ℕ} {ports ports' : List ℕ}
    (h : answer count ports = answer count' ports') : ports = ports' := by
  have hports := List.append_cancel_right (List.cons.inj (List.cons.inj (List.cons.inj h).2).2).2
  exact List.map_injective_iff.mpr (fun p q => Printed.port.inj) hports

/- With the last port open, a run that prints a list leaves it out. -/
theorem exists_inexact (openPorts : ℕ → ℕ) (hlast : 65535 ∈ S) :
    ∃ tr s, Run (step S) (initial openPorts) tr s ∧ ¬ Exact S tr s := by
  obtain ⟨tr,s,r,hn⟩ := exists_listed S openPorts
  refine ⟨tr,s,r,fun hexact => ?_⟩
  obtain ⟨ports,_,hmem,hout⟩ := hexact.listed hn
  rw [(run_inv r).listed hn] at hout
  have hfound := (hmem 65535).mpr hlast
  rw [← answer_ports hout] at hfound
  exact Nat.lt_irrefl _ (mem_found.mp hfound).1

/-- Where `connect` succeeds on the ports of `S`, the answer of every run is exact if
and only if port 65535 is not open. -/
theorem scanner_exact (S : Finset ℕ) (hS : ∀ p ∈ S, 1 ≤ p ∧ p ≤ 65535) :
    (∀ openPorts tr s, Run (step S) (initial openPorts) tr s → Exact S tr s) ↔ 65535 ∉ S := by
  refine ⟨?_,?_⟩
  · intro h hlast
    obtain ⟨tr,s,r,hbad⟩ := exists_inexact (fun _ => 0) hlast
    exact hbad (h _ tr s r)
  · intro hlast openPorts tr s r
    have hinv := run_inv r
    have hmem (p : ℕ) : p ∈ found S maxPort ↔ p ∈ S := by
      refine ⟨fun hp => (mem_found.mp hp).2,fun hp => mem_found.mpr ⟨?_,hp⟩⟩
      refine Nat.lt_of_le_of_ne (hS p hp).2 ?_
      rintro rfl
      exact hlast hp
    have hcard : (found S maxPort).length = S.card := by
      have hset : (found S maxPort).toFinset = S := Finset.ext fun p => List.mem_toFinset.trans (hmem p)
      have hnodup : (found S maxPort).Nodup := (found_sorted S maxPort).imp Nat.ne_of_lt
      rw [← List.toFinset_card_of_nodup hnodup,hset]
    refine ⟨fun hn => ⟨found S maxPort,found_sorted S maxPort,hmem,?_⟩,fun x hx i hw => ?_,hinv.timed_out⟩
    · rw [← hcard]
      exact hinv.listed hn
    · exact (r.invariant_mem (fun _ _ r => run_inv r) hx).written_inside hw

/- A web server and a remote shell. -/
theorem scanner_exact_web :
    (∀ openPorts tr s, Run (step {22,80}) (initial openPorts) tr s → Exact {22,80} tr s) ↔
      65535 ∉ ({22,80} : Finset ℕ) := scanner_exact {22,80} (by decide)

/- The last port is open, and the list is empty. -/
theorem scanner_misses_last : ¬ ∀ S : Finset ℕ, (∀ p ∈ S, 1 ≤ p ∧ p ≤ 65535) →
    ∀ openPorts tr s, Run (step S) (initial openPorts) tr s → Exact S tr s := by
  intro h
  obtain ⟨tr,s,r,hbad⟩ := exists_inexact (fun _ => 0) (Finset.mem_singleton_self 65535)
  exact hbad (h {65535} (by decide) _ tr s r)

end TcpProjects.GetOpenPorts
