import TcpProjects.Protocol.Server

/-! # What a failing client does to the next ones

The `catch` stands outside the accept loop: whatever call throws, `Start` prints
the stack trace and returns. A client is served exactly if none before it failed. -/

namespace TcpProjects.Protocol
open Transition ReadUntil

variable {κ : Culture} {clients : List Client} {c : Client} {s s' : Server} {i n : ℕ}

/- A finite stream that ends with the marker, and no call throws. -/
structure Client.Good (c : Client) (chunks : List Bytes) : Prop where
  receive : c.receive = ofChunks chunks
  marker : ascii "<EOF>" <:+ chunks.flatten
  send : c.send = true
  shutdown : c.shutdown = true
  close : c.close = true

/- A `Receive` throws, or a call that comes after the loop. -/
def Client.Fails (κ : Culture) (c : Client) : Prop :=
  (∃ n, FailsAt c.receive κ.complete n) ∨
    (∃ n, EndsAt c.receive κ.complete n) ∧ ¬ (c.send = true ∧ c.shutdown = true ∧ c.close = true)

theorem Client.Good.completes {chunks : List Bytes} (h : c.Good chunks) (κ : Culture) :
    c.Completes κ := by
  refine ⟨?_,h.send,h.shutdown,h.close⟩
  rw [h.receive,exists_endsAt_ofChunks fun a b h => κ.complete_append h b]
  apply κ.found_of_infix
  have he : eof = getString (ascii "<EOF>") := by decide
  rw [he]
  exact h.marker.isInfix.map _

theorem Client.Completes.not_fails (h : c.Completes κ) : ¬ c.Fails κ := by
  intro hf
  rcases hf with ⟨n,hn⟩ | ⟨_,hcalls⟩
  · obtain ⟨m,hm⟩ := h.text
    rcases Nat.lt_or_ge n m with hlt | hge
    · exact hm.succeed n hlt hn.fails
    · rcases Nat.lt_or_eq_of_le hge with hlt | rfl
      · have := hm.le hn.toReads
        omega
      · exact hm.read hn.fails
  · exact hcalls ⟨h.send,h.shutdown,h.close⟩

/-! ### Where the server stands -/

/- What is known of the client being served. -/
def Client.At (κ : Culture) (c : Client) : PC → Prop
  | .accept => True
  | .receive data n => data = c.data n ∧ Reads c.receive κ.complete n
  | .send => ∃ n, EndsAt c.receive κ.complete n
  | .shutdown => (∃ n, EndsAt c.receive κ.complete n) ∧ c.send = true
  | .close => (∃ n, EndsAt c.receive κ.complete n) ∧ c.send = true ∧ c.shutdown = true
  | .returned => True

structure Reached (κ : Culture) (clients : List Client) (s : Server) : Prop where
  before : ∀ j < s.served, ∃ c, clients[j]? = some c ∧ c.Completes κ
  current : ∀ c, clients[s.served]? = some c → c.At κ s.pc
  log : ∀ k, .accepted k ∈ s.log → k ≤ s.served

theorem Reached.of_start : Reached κ clients .start :=
  ⟨fun _ hj => absurd hj (Nat.not_lt_zero _),fun _ _ => trivial,fun _ hk => by cases hk⟩

theorem Reached.step {a : Unit} (h : Reached κ clients s)
    (hs : Protocol.step κ clients s a = some s') : Reached κ clients s' := by
  obtain ⟨c,hc,hs⟩ := Option.bind_eq_some_iff.mp hs
  have hat := h.current c hc
  have hthis (pc : PC) (hpc : c.At κ pc) (d : Client) (hd : clients[s.served]? = some d) :
      d.At κ pc := by
    obtain rfl := Option.some.inj (hc.symm.trans hd)
    exact hpc
  cases hpc : s.pc with
  | accept =>
    simp only [hpc] at hs
    cases hs
    refine ⟨h.before,hthis _ ⟨rfl,Reads.zero⟩,fun k hk => ?_⟩
    rcases List.mem_append.mp hk with hk | hk
    · exact h.log k hk
    · cases List.mem_singleton.mp hk
      exact Nat.le_refl _
  | receive data n =>
    rw [hpc] at hat
    obtain ⟨rfl,hreads⟩ := hat
    simp only [hpc] at hs
    split at hs
    · cases hs
      exact ⟨h.before,fun _ _ => trivial,fun k hk => h.log k (by simpa [Server.caught] using hk)⟩
    · next buffer hb =>
      have hr : c.receive n ≠ none := by simp [hb]
      rw [← c.data_succ hb] at hs
      split_ifs at hs with hf
      · cases hs
        exact ⟨h.before,hthis .send ⟨n,hreads,hr,hf⟩,fun k hk => h.log k (by simpa using hk)⟩
      · cases hs
        exact ⟨h.before,hthis _ ⟨rfl,hreads.succ hr (Bool.eq_false_iff.mpr hf)⟩,h.log⟩
  | send =>
    rw [hpc] at hat
    simp only [hpc] at hs
    split_ifs at hs with hsend
    · cases hs
      exact ⟨h.before,hthis .shutdown ⟨hat,hsend⟩,fun k hk => h.log k (by simpa using hk)⟩
    · cases hs
      exact ⟨h.before,fun _ _ => trivial,fun k hk => h.log k (by simpa [Server.caught] using hk)⟩
  | shutdown =>
    rw [hpc] at hat
    simp only [hpc] at hs
    split_ifs at hs with hshut
    · cases hs
      exact ⟨h.before,hthis .close ⟨hat.1,hat.2,hshut⟩,h.log⟩
    · cases hs
      exact ⟨h.before,fun _ _ => trivial,fun k hk => h.log k (by simpa [Server.caught] using hk)⟩
  | close =>
    rw [hpc] at hat
    simp only [hpc] at hs
    split_ifs at hs with hclose
    · cases hs
      refine ⟨fun j hj => ?_,fun _ _ => trivial,fun k hk => ?_⟩
      · rcases Nat.lt_succ_iff_lt_or_eq.mp hj with hj | rfl
        · exact h.before j hj
        · exact ⟨c,hc,hat.1,hat.2.1,hat.2.2,hclose⟩
      · exact Nat.le_succ_of_le (h.log k (by simpa using hk))
    · cases hs
      exact ⟨h.before,fun _ _ => trivial,fun k hk => h.log k (by simpa [Server.caught] using hk)⟩
  | returned =>
    simp only [hpc] at hs
    cases hs

/- Who is accepted comes after clients that did not fail. -/
theorem accepted_after {tr : List (Server × Unit)} (r : Run (step κ clients) .start tr s)
    (hi : .accepted i ∈ s.log) {j : ℕ} (hj : j < i) :
    ∃ c, clients[j]? = some c ∧ c.Completes κ := by
  have h := r.invariant (I := Reached κ clients) Reached.of_start fun _ _ _ hi hs => hi.step hs
  exact h.before j (Nat.lt_of_lt_of_le hj (h.log i hi))

theorem accept_step (hc : clients[i]? = some c) {log : List Event} :
    step κ clients ⟨.accept,i,log⟩ () =
      some (receiving ⟨.accept,i,log ++ [.accepted i]⟩ c 0) := by
  simp [step,hc,receiving,Client.data,gathered,getString]

/- The server comes to the client behind those that did not fail. -/
theorem run_to (h : ∀ j < i, ∃ c, clients[j]? = some c ∧ c.Completes κ) :
    ∃ tr log, Run (step κ clients) .start tr ⟨.accept,i,log⟩ := by
  induction i with
  | zero => exact ⟨[],[],Run.start⟩
  | succ i ih =>
    obtain ⟨tr,log,r⟩ := ih fun j hj => h j (Nat.lt_succ_of_lt hj)
    obtain ⟨c,hc,hcompletes⟩ := h i (Nat.lt_succ_self i)
    obtain ⟨n,he⟩ := hcompletes.text
    obtain ⟨tr',r'⟩ := run_served (s := ⟨.accept,i,log ++ [.accepted i]⟩) hc hcompletes he
    exact ⟨_,_,(r.next (accept_step hc)).append r'⟩

/- Client `i` is accepted, its text is printed and it is sent the answer. -/
def Served (κ : Culture) (clients : List Client) (i : ℕ) (data : Text) : Prop :=
  ∃ tr s, Run (step κ clients) .start tr s ∧ .accepted i ∈ s.log ∧ .packet i data ∈ s.log ∧
    .sent i helloClient ∈ s.log

theorem served_of_completes (h : ∀ j < i, ∃ c, clients[j]? = some c ∧ c.Completes κ)
    (hc : clients[i]? = some c) (hcompletes : c.Completes κ) (he : EndsAt c.receive κ.complete n) :
    Served κ clients i (c.data (n+1)) := by
  obtain ⟨tr,log,r⟩ := run_to h
  obtain ⟨tr',r'⟩ := run_served (s := ⟨.accept,i,log ++ [.accepted i]⟩) hc hcompletes he
  exact ⟨_,_,(r.next (accept_step hc)).append r',by simp,by simp,by simp⟩

/- A call behind the loop throws. -/
theorem run_calls_failed {log : List Event} (hc : clients[i]? = some c)
    (h : ¬ (c.send = true ∧ c.shutdown = true ∧ c.close = true)) :
    ∃ tr log', Run (step κ clients) ⟨.send,i,log⟩ tr ⟨.returned,i,log' ++ [.stackTrace]⟩ := by
  by_cases hsend : c.send = true
  · have hsent : step κ clients ⟨.send,i,log⟩ () = some ⟨.shutdown,i,log ++ [.sent i helloClient]⟩ := by
      simp [step,hc,hsend]
    by_cases hshutdown : c.shutdown = true
    · have hclose : c.close = false := by simpa [hsend,hshutdown] using h
      have hshut : step κ clients ⟨.shutdown,i,log ++ [.sent i helloClient]⟩ () =
          some ⟨.close,i,log ++ [.sent i helloClient]⟩ := by
        simp [step,hc,hshutdown]
      have hthrow : step κ clients ⟨.close,i,log ++ [.sent i helloClient]⟩ () =
          some ⟨.returned,i,log ++ [.sent i helloClient] ++ [.stackTrace]⟩ := by
        simp [step,hc,hclose,Server.caught]
      exact ⟨_,_,((Run.start.next hsent).next hshut).next hthrow⟩
    · have hthrow : step κ clients ⟨.shutdown,i,log ++ [.sent i helloClient]⟩ () =
          some ⟨.returned,i,log ++ [.sent i helloClient] ++ [.stackTrace]⟩ := by
        simp [step,hc,hshutdown,Server.caught]
      exact ⟨_,_,(Run.start.next hsent).next hthrow⟩
  · have hthrow : step κ clients ⟨.send,i,log⟩ () = some ⟨.returned,i,log ++ [.stackTrace]⟩ := by
      simp [step,hc,hsend,Server.caught]
    exact ⟨_,_,Run.start.next hthrow⟩

/- `Start` returns behind the stack trace. -/
theorem run_failed (hc : clients[s.served]? = some c) (h : c.Fails κ) :
    ∃ tr log, Run (step κ clients) (receiving s c 0) tr ⟨.returned,s.served,log ++ [.stackTrace]⟩ := by
  rcases h with ⟨n,hn⟩ | ⟨⟨n,he⟩,hcalls⟩
  · obtain ⟨tr,r,_⟩ := run_reads hc hn.toReads
    have hthrow : step κ clients (receiving s c n) () = some ⟨.returned,s.served,s.log ++ [.stackTrace]⟩ := by
      simp [step,receiving,hc,hn.fails,Server.caught]
    exact ⟨_,_,r.next hthrow⟩
  · obtain ⟨tr,r,_⟩ := run_reads hc he.toReads
    obtain ⟨tr',log,r'⟩ := run_calls_failed hc hcalls
    exact ⟨_,log,(r.next (receive_end hc he.read he.complete)).append r'⟩

/- The first client that fails ends `Start`. -/
theorem returned_of_fails (hkinds : ∀ d ∈ clients, (∃ chunks, d.Good chunks) ∨ d.Fails κ)
    (hc : clients[i]? = some c) (hfails : c.Fails κ) :
    ∃ k ≤ i, ∃ tr log, Run (step κ clients) .start tr ⟨.returned,k,log ++ [.stackTrace]⟩ := by
  classical
  have hex : ∃ k, ∃ d : Client, clients[k]? = some d ∧ d.Fails κ := ⟨i,c,hc,hfails⟩
  obtain ⟨d,hd,hdfails⟩ := Nat.find_spec hex
  have hbefore : ∀ j < Nat.find hex, ∃ e, clients[j]? = some e ∧ e.Completes κ := by
    intro j hj
    have hlength := (List.getElem?_eq_some_iff.mp hd).1
    have he := List.getElem?_eq_getElem (Nat.lt_trans hj hlength)
    rcases hkinds _ (List.mem_of_getElem? he) with ⟨_,hgood⟩ | hefails
    · exact ⟨_,he,hgood.completes κ⟩
    · exact absurd ⟨_,he,hefails⟩ (Nat.find_min hex hj)
  obtain ⟨tr,log,r⟩ := run_to hbefore
  obtain ⟨tr',log',r'⟩ := run_failed (s := ⟨.accept,Nat.find hex,log ++ [.accepted (Nat.find hex)]⟩) hd hdfails
  exact ⟨_,Nat.find_min' hex ⟨c,hc,hfails⟩,_,log',(r.next (accept_step hd)).append r'⟩

/-- A client that sends a finite stream ending with the marker is accepted, printed and
answered if no client before it failed; what is printed is the text up to the chunk that
completes a marker. Once a client has failed, the stack trace is printed, `Start` returns,
and no later client is accepted. -/
theorem served_until_failure (hkinds : ∀ d ∈ clients, (∃ chunks, d.Good chunks) ∨ d.Fails κ) :
    (∀ i c chunks, clients[i]? = some c → c.Good chunks →
      (∀ j < i, ∀ d, clients[j]? = some d → ¬ d.Fails κ) →
      ∃ n, EndsAt c.receive κ.complete n ∧ Served κ clients i (c.data (n+1)) ∧
        ((∀ m < chunks.length, κ.complete (chunks.take m).flatten = false) →
          c.data (n+1) = getString chunks.flatten)) ∧
    ∀ j d, clients[j]? = some d → d.Fails κ →
      (∃ k ≤ j, ∃ tr log, Run (step κ clients) .start tr ⟨.returned,k,log ++ [.stackTrace]⟩) ∧
      ∀ i > j, ∀ tr s, Run (step κ clients) .start tr s → .accepted i ∉ s.log := by
  constructor
  · intro i c chunks hc hgood hnone
    have hcompletes := hgood.completes κ
    obtain ⟨n,he⟩ := hcompletes.text
    refine ⟨n,he,served_of_completes (fun j hj => ?_) hc hcompletes he,fun hwhole => ?_⟩
    · have hlength := (List.getElem?_eq_some_iff.mp hc).1
      have hd := List.getElem?_eq_getElem (Nat.lt_trans hj hlength)
      rcases hkinds _ (List.mem_of_getElem? hd) with ⟨_,hd'⟩ | hd'
      · exact ⟨_,hd,hd'.completes κ⟩
      · exact absurd hd' (hnone j hj _ hd)
    · have hdone := he.complete
      rw [hgood.receive,gathered_ofChunks] at hdone
      rw [Client.data,hgood.receive,gathered_ofChunks]
      rcases Nat.lt_or_ge (n+1) chunks.length with hlt | hge
      · rw [hwhole (n+1) hlt] at hdone
        cases hdone
      · rw [List.take_of_length_le hge]
  · intro j d hd hfails
    refine ⟨returned_of_fails hkinds hd hfails,fun i hj tr s r hi => ?_⟩
    obtain ⟨e,he,hcompletes⟩ := accepted_after r hi hj
    obtain rfl := Option.some.inj (hd.symm.trans he)
    exact hcompletes.not_fails hfails

/- It sends the marker alone, in one chunk. -/
def markerClient : Client := ⟨ofChunks [ascii "<EOF>"],true,true,true⟩

theorem markerClient_good : markerClient.Good [ascii "<EOF>"] :=
  ⟨rfl,by decide +kernel,rfl,rfl,rfl⟩

/- Its connection is reset before it sends anything. -/
def resetClient : Client := ⟨fun _ => none,true,true,true⟩

theorem resetClient_fails (κ : Culture) : resetClient.Fails κ := Or.inl ⟨0,Reads.zero,rfl⟩

/- The second of three clients fails. -/
theorem served_until_failure_second :
    (∃ data, Served .ordinal [markerClient,resetClient,markerClient] 0 data) ∧
    (∃ k ≤ 1, ∃ tr log, Run (step .ordinal [markerClient,resetClient,markerClient]) .start tr
      ⟨.returned,k,log ++ [.stackTrace]⟩) ∧
    ∀ tr s, Run (step .ordinal [markerClient,resetClient,markerClient]) .start tr s →
      .accepted 2 ∉ s.log := by
  have hkinds : ∀ d ∈ [markerClient,resetClient,markerClient],
      (∃ chunks, d.Good chunks) ∨ d.Fails .ordinal := by
    intro d hd
    simp only [List.mem_cons,List.not_mem_nil,or_false] at hd
    rcases hd with rfl | rfl | rfl
    · exact Or.inl ⟨_,markerClient_good⟩
    · exact Or.inr (resetClient_fails _)
    · exact Or.inl ⟨_,markerClient_good⟩
  obtain ⟨hserved,hfailed⟩ := served_until_failure hkinds
  obtain ⟨n,_,hfirst,_⟩ := hserved 0 markerClient _ rfl markerClient_good
    fun j hj => absurd hj (Nat.not_lt_zero j)
  obtain ⟨hreturned,hlater⟩ := hfailed 1 resetClient rfl (resetClient_fails _)
  exact ⟨⟨_,hfirst⟩,hreturned,hlater 2 (by decide)⟩

/- A client whose connection is reset keeps the next one from being accepted. -/
theorem not_isolated :
    ¬ ∀ (κ : Culture) (clients : List Client),
      (∀ d ∈ clients, (∃ chunks, d.Good chunks) ∨ d.Fails κ) →
        ∀ i c chunks, clients[i]? = some c → c.Good chunks → ∃ data, Served κ clients i data := by
  intro h
  obtain ⟨data,tr,s,r,hi,_⟩ := h .ordinal [resetClient,markerClient]
    (fun d hd => by
      rcases List.mem_cons.mp hd with rfl | hd
      · exact Or.inr (resetClient_fails _)
      · cases List.mem_singleton.mp hd
        exact Or.inl ⟨_,markerClient_good⟩)
    1 markerClient _ rfl markerClient_good
  obtain ⟨d,hd,hcompletes⟩ := accepted_after r hi (Nat.lt_succ_self 0)
  cases hd
  exact hcompletes.not_fails (resetClient_fails _)

end TcpProjects.Protocol
