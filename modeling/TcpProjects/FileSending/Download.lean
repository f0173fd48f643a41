import TcpProjects.FileSending.Processes

/-! # What is downloaded

What the server has sent is what the client has read, what it holds in its buffer
and what is in flight. When both loops succeed, the transfer ends in every
interleaving with the whole file; when the client alone returns 0, it has what was
sent before the connection was closed. -/

namespace TcpProjects.FileSending
open Transition

/-! ### The stream -/

def ClientPC.pending : ClientPC → Bytes
  | .write buffer => buffer
  | _ => []

/- `recv` has returned 0. -/
def ClientPC.ended : ClientPC → Prop
  | .write buffer => buffer = []
  | .close => True
  | .returned => True
  | _ => False

structure Stream (source : Bytes) (s : State) : Prop where
  total : s.server.totalSentBytes = s.server.offset
  offset_le : s.server.offset ≤ source.length
  sent : source.take s.server.offset =
    source.take s.client.totalSizeRead ++ (s.client.pc.pending ++ s.network)
  count : s.client.totalSizeRead+s.client.pc.pending.length+s.network.length = s.server.offset
  sentAll : s.server.pc = .exitHandler ∨ s.server.pc = .returned → source.length ≤ s.server.offset
  listen : s.server.pc = .listen → s.link = .down
  ended : s.client.pc.ended → s.network = [] ∧ s.link = .closed

theorem Stream.of_start (source old : Bytes) : Stream source (start old) where
  total := rfl
  offset_le := Nat.zero_le _
  sent := rfl
  count := rfl
  sentAll := by simp [start]
  listen _ := rfl
  ended h := h.elim

theorem Link.close_of_ended {l : Link} (h : l = .closed) : l.close = .closed := by
  rw [h]
  rfl

theorem Link.close_of_down {l : Link} (h : l = .down) : l.close = .down := by
  rw [h]
  rfl

/- What leaves the stream alone. -/
theorem Stream.keep {source : Bytes} {s s' : State} (h : Stream source s)
    (hsent : s'.server.offset = s.server.offset ∧ s'.server.totalSentBytes = s.server.totalSentBytes)
    (hread : s'.client.totalSizeRead = s.client.totalSizeRead ∧ s'.client.pc.pending = s.client.pc.pending)
    (hnetwork : s'.network = s.network)
    (hpc : s'.server.pc = .exitHandler ∨ s'.server.pc = .returned →
      s.server.pc = .exitHandler ∨ s.server.pc = .returned)
    (hlisten : s'.server.pc = .listen → s'.link = .down)
    (hended : s'.client.pc.ended → s.client.pc.ended ∧ (s.link = .closed → s'.link = .closed)) :
    Stream source s' where
  total := by rw [hsent.1,hsent.2,h.total]
  offset_le := by rw [hsent.1]; exact h.offset_le
  sent := by rw [hsent.1,hread.1,hread.2,hnetwork,h.sent]
  count := by rw [hsent.1,hread.1,hread.2,hnetwork,h.count]
  sentAll hs := by rw [hsent.1]; exact h.sentAll (hpc hs)
  listen := hlisten
  ended he := by
    obtain ⟨hold,hlink⟩ := hended he
    obtain ⟨hn,hl⟩ := h.ended hold
    exact ⟨hnetwork.trans hn,hlink hl⟩

/- What follows a beginning in a longer one belongs to the list. -/
theorem take_more {l b r : Bytes} {t o : ℕ} (hlength : t+b.length ≤ l.length) (hle : t+b.length ≤ o)
    (h : l.take o = l.take t ++ (b ++ r)) : l.take (t+b.length) = l.take t ++ b := by
  have hl : (l.take t ++ b).length = t+b.length := by
    rw [List.length_append,List.length_take]
    omega
  calc l.take (t+b.length)
      = (l.take o).take (t+b.length) := by rw [List.take_take,Nat.min_eq_left hle]
    _ = (l.take t ++ b ++ r).take (t+b.length) := by rw [h,List.append_assoc]
    _ = l.take t ++ b := List.take_left' hl

theorem Stream.step {source : Bytes} {s s' : State} {a : Action} (h : Stream source s)
    (hs : Step source s a s') (hlive : s'.client.pc ≠ .failed) : Stream source s' := by
  cases hs with
  | listen hpc hd =>
    have hno (he : s.client.pc.ended) : False := by
      have hl := h.listen hpc
      rw [(h.ended he).2] at hl
      cases hl
    exact h.keep ⟨rfl,rfl⟩ ⟨rfl,rfl⟩ rfl (by simp) (by simp) fun he => (hno he).elim
  | accept hpc hl =>
    have hno (he : s.client.pc.ended) : False := by
      rw [(h.ended he).2] at hl
      cases hl
    exact h.keep ⟨rfl,rfl⟩ ⟨rfl,rfl⟩ rfl (by simp) (by simp) fun he => (hno he).elim
  | @sendfile n hpc hl hn =>
    obtain ⟨_,hfits,hlast⟩ := hn
    have hno (he : s.client.pc.ended) : False := by
      rw [(h.ended he).2] at hl
      cases hl
    refine ⟨by simp only [h.total],hfits,?_,?_,?_,?_,fun he => (hno he).elim⟩
    · simp only [List.take_add,h.sent,List.append_assoc]
    · have hcount := h.count
      simp only [List.length_append,List.length_take,List.length_drop]
      omega
    · intro hpc'
      have hzero : n = 0 := by
        by_contra hne
        simp [ServerPC.afterRound,hne] at hpc'
      exact Nat.le_trans (hlast hzero) (Nat.le_add_right _ _)
    · intro hpc'
      simp only [ServerPC.afterRound] at hpc'
      split_ifs at hpc'
  | exit hpc hans =>
    exact h.keep ⟨rfl,rfl⟩ ⟨rfl,rfl⟩ rfl (by simp [State.exit]) (by simp [State.exit])
      fun he => ⟨he,Link.close_of_ended⟩
  | exitHandler hpc hd =>
    exact h.keep ⟨rfl,rfl⟩ ⟨rfl,rfl⟩ rfl (fun _ => Or.inl hpc) (by simp)
      fun he => ⟨he,Link.close_of_ended⟩
  | fopen hpc =>
    exact h.keep ⟨rfl,rfl⟩ ⟨rfl,by rw [hpc]; rfl⟩ rfl id h.listen fun he => he.elim
  | connect hpc hl =>
    refine h.keep ⟨rfl,rfl⟩ ⟨rfl,by rw [hpc]; rfl⟩ rfl id (fun hlisten => ?_) fun he => he.elim
    rw [h.listen hlisten] at hl
    cases hl
  | openFile hpc =>
    exact h.keep ⟨rfl,rfl⟩ ⟨rfl,by rw [hpc]; rfl⟩ rfl id h.listen fun he => he.elim
  | @recv n hpc hn =>
    obtain ⟨_,hle,hend⟩ := hn
    have hsent := h.sent
    have hcount := h.count
    rw [hpc] at hsent hcount
    refine ⟨h.total,h.offset_le,?_,?_,h.sentAll,h.listen,fun he => ?_⟩
    · simpa [ClientPC.pending] using hsent
    · simp only [ClientPC.pending,List.length_nil,List.length_take,List.length_drop] at hcount ⊢
      omega
    · have hzero : n = 0 := by
        have hlength := congrArg List.length (show s.network.take n = [] from he)
        simp only [List.length_take,List.length_nil] at hlength
        omega
      obtain ⟨hnil,hl⟩ := hend hzero
      exact ⟨by simp [hnil],hl⟩
  | @write buffer k hpc hk =>
    have hsent := h.sent
    have hcount := h.count
    rw [hpc] at hsent hcount
    simp only [ClientPC.pending] at hsent hcount
    have hread : s.client.totalSizeRead+buffer.length ≤ s.server.offset := by omega
    have hnext := take_more (Nat.le_trans hread h.offset_le) hread hsent
    have hpending : (ClientPC.afterRound buffer.length).pending = [] := by
      rw [ClientPC.afterRound]
      split_ifs <;> rfl
    refine ⟨h.total,h.offset_le,?_,?_,h.sentAll,h.listen,fun he => ?_⟩
    · simp only [hpending,hnext,List.nil_append,List.append_assoc]
      exact hsent
    · simp only [hpending,List.length_nil]
      omega
    · have hempty : buffer = [] := by
        by_contra hne
        have hlength : buffer.length ≠ 0 := fun h0 => hne (List.length_eq_zero_iff.mp h0)
        simp [ClientPC.afterRound,hlength,ClientPC.ended] at he
      exact h.ended (by rw [hpc]; exact hempty)
  | close hpc =>
    refine h.keep ⟨rfl,rfl⟩ ⟨rfl,by rw [hpc]; rfl⟩ rfl id h.listen fun _ => ⟨?_,id⟩
    rw [hpc]
    trivial
  | fail hans => exact absurd rfl hlive
  | interrupt hd =>
    exact h.keep ⟨rfl,rfl⟩ ⟨rfl,rfl⟩ rfl id (fun hlisten => Link.close_of_down (h.listen hlisten))
      fun he => ⟨he,Link.close_of_ended⟩
  | abort hpc =>
    exact h.keep ⟨rfl,rfl⟩ ⟨rfl,rfl⟩ rfl (by simp [State.exit]) (by simp [State.exit])
      fun he => ⟨he,Link.close_of_ended⟩

/- A client that has failed takes no part any more. -/
theorem Step.failed {source : Bytes} {s s' : State} {a : Action} (hs : Step source s a s')
    (h : s.client.pc = .failed) : s'.client.pc = .failed := by
  cases hs <;> simp_all [State.exit,State.fail]

theorem run_stream {source old : Bytes} {tr : List (State × Action)} {s : State}
    (r : Run (step source) (start old) tr s) (hlive : s.client.pc ≠ .failed) : Stream source s := by
  have h := r.invariant (I := fun s => s.client.pc ≠ .failed → Stream source s)
    (fun _ => Stream.of_start source old) fun s a s' ih hs hlive => by
      have hstep := step_cases hs
      exact (ih fun hf => hlive (hstep.failed hf)).step hstep hlive
  exact h hlive

/-! ### The file -/

theorem overwrite_end (target data : Bytes) : overwrite target target.length data = target ++ data := by
  rw [overwrite,List.take_length,List.drop_eq_nil_of_le (by omega),List.append_nil]

/- Before the first `recv`. -/
def ClientPC.early : ClientPC → Prop
  | .fopen => True
  | .connect => True
  | .openFile => True
  | _ => False

/- Every `write` so far has stored all of its bytes. -/
structure Stored (source : Bytes) (s : State) : Prop where
  early : s.client.pc.early → s.client.totalSizeRead = 0
  position : s.client.position = s.client.totalSizeRead
  target : s.client.pc ≠ .fopen → s.client.target = source.take s.client.totalSizeRead

/- `write` stores all the bytes it is given. -/
def writesAll (x : State × Action) : Bool :=
  match x.1.client.pc, x.2 with
  | .write buffer, .client (.count (some k)) => k = buffer.length
  | _, _ => true

theorem Stored.step {source : Bytes} {s s' : State} {a : Action} (h : Stored source s)
    (hstream : Stream source s) (hwrites : writesAll (s,a) = true) (hs : Step source s a s')
    (hlive : s'.client.pc ≠ .failed) : Stored source s' := by
  cases hs with
  | fopen hpc =>
    have hzero := h.early (by rw [hpc]; trivial)
    exact ⟨fun _ => hzero,h.position,fun _ => by simp [hzero]⟩
  | connect hpc hl =>
    have hzero := h.early (by rw [hpc]; trivial)
    exact ⟨fun _ => hzero,h.position,fun _ => h.target (by simp [hpc])⟩
  | openFile hpc =>
    have hzero := h.early (by rw [hpc]; trivial)
    exact ⟨fun he => he.elim,hzero.symm,fun _ => h.target (by simp [hpc])⟩
  | recv hpc hn => exact ⟨fun he => he.elim,h.position,fun _ => h.target (by simp [hpc])⟩
  | @write buffer k hpc hk =>
    obtain rfl : k = buffer.length := by simpa [writesAll,hpc] using hwrites
    have hsent := hstream.sent
    have hcount := hstream.count
    rw [hpc] at hsent hcount
    simp only [ClientPC.pending] at hsent hcount
    have hread : s.client.totalSizeRead+buffer.length ≤ s.server.offset := by omega
    have hnext := take_more (Nat.le_trans hread hstream.offset_le) hread hsent
    have htarget := h.target (by simp [hpc])
    have hposition : s.client.position = s.client.target.length := by
      have := hstream.offset_le
      rw [h.position,htarget,List.length_take]
      omega
    refine ⟨fun he => ?_,by simp only [h.position],fun _ => ?_⟩
    · simp only [ClientPC.afterRound] at he
      split_ifs at he <;> exact he.elim
    · simp only [hposition,List.take_length,overwrite_end,hnext,htarget]
  | close hpc => exact ⟨fun he => he.elim,h.position,fun _ => h.target (by simp [hpc])⟩
  | fail hans => exact absurd rfl hlive
  | listen => exact ⟨h.early,h.position,h.target⟩
  | accept => exact ⟨h.early,h.position,h.target⟩
  | sendfile => exact ⟨h.early,h.position,h.target⟩
  | exit => exact ⟨h.early,h.position,h.target⟩
  | exitHandler => exact ⟨h.early,h.position,h.target⟩
  | interrupt => exact ⟨h.early,h.position,h.target⟩
  | abort => exact ⟨h.early,h.position,h.target⟩

theorem run_stored {source old : Bytes} {tr : List (State × Action)} {s : State}
    (r : Run (step source) (start old) tr s) (hwrites : ∀ x ∈ tr,writesAll x = true)
    (hlive : s.client.pc ≠ .failed) : Stored source s := by
  have h := r.guarded (I := fun s => s.client.pc ≠ .failed → Stream source s ∧ Stored source s)
    (fun s a => writesAll (s,a) = true)
    (fun _ => ⟨Stream.of_start source old,⟨fun _ => rfl,rfl,fun hno => absurd rfl hno⟩⟩)
    (fun s a s' ih hw hs hlive => by
      have hstep := step_cases hs
      obtain ⟨hstream,hstored⟩ := ih fun hf => hlive (hstep.failed hf)
      exact ⟨hstream.step hstep hlive,hstored.step hstream hw hstep hlive⟩) hwrites
  exact (h hlive).2

/-! ### A download that is reported as successful -/

/- On a closed connection nothing is sent, and it stays closed. -/
theorem Step.closed {source : Bytes} {s s' : State} {a : Action} (hs : Step source s a s')
    (hlink : s.link = .closed) (hpc : s.server.pc ≠ .listen) :
    s'.server.totalSentBytes = s.server.totalSentBytes ∧ s'.link = .closed ∧
      s'.server.pc ≠ .listen := by
  cases hs with
  | listen hpc' => exact absurd hpc' hpc
  | accept _ hl => exact absurd (hlink.symm.trans hl) (by decide)
  | sendfile _ hl => exact absurd (hlink.symm.trans hl) (by decide)
  | exit => exact ⟨rfl,Link.close_of_ended hlink,by simp [State.exit]⟩
  | exitHandler => exact ⟨rfl,Link.close_of_ended hlink,by simp⟩
  | connect _ hl => exact absurd (hlink.symm.trans hl) (by decide)
  | interrupt => exact ⟨rfl,Link.close_of_ended hlink,hpc⟩
  | abort => exact ⟨rfl,Link.close_of_ended hlink,by simp [State.exit]⟩
  | _ => exact ⟨rfl,hlink,hpc⟩

theorem closed_sends_nothing {source : Bytes} {tr : List (State × Action)} {s s' : State}
    (r : Run (step source) s tr s') (hlink : s.link = .closed) (hpc : s.server.pc ≠ .listen) :
    s'.server.totalSentBytes = s.server.totalSentBytes := by
  have h := r.invariant (I := fun u => u.server.totalSentBytes = s.server.totalSentBytes ∧
    u.link = .closed ∧ u.server.pc ≠ .listen) ⟨rfl,hlink,hpc⟩ fun u a u' hu hs => by
      obtain ⟨htotal,hl,hp⟩ := hu
      obtain ⟨hsame,hrest⟩ := (step_cases hs).closed hl hp
      exact ⟨hsame.trans htotal,hrest⟩
  exact h.1

/-- A client that returns 0 has the bytes that the server had sent when the connection
was closed: the whole file exactly if that was all of it. -/
theorem downloaded_sent {source old : Bytes} {tr : List (State × Action)} {s : State}
    (r : Run (step source) (start old) tr s) (hwrites : ∀ x ∈ tr,writesAll x = true)
    (hreturned : s.client.pc = .returned) :
    s.client.target = source.take s.server.totalSentBytes ∧
    s.client.totalSizeRead = s.server.totalSentBytes ∧
    (s.client.target = source ↔ s.server.totalSentBytes = source.length) ∧
    (s.server.pc = .returned → s.client.target = source) ∧
    ∀ tr' s',Run (step source) s tr' s' → s'.server.totalSentBytes = s.server.totalSentBytes := by
  have hlive : s.client.pc ≠ .failed := by simp [hreturned]
  have hstream := run_stream r hlive
  have hstored := run_stored r hwrites hlive
  obtain ⟨hnetwork,hclosed⟩ := hstream.ended (by rw [hreturned]; trivial)
  have hread : s.client.totalSizeRead = s.server.totalSentBytes := by
    have hcount := hstream.count
    rw [hreturned,hnetwork] at hcount
    rw [hstream.total]
    exact hcount
  have htarget : s.client.target = source.take s.server.totalSentBytes := by
    rw [← hread]
    exact hstored.target (by simp [hreturned])
  have hle : s.server.totalSentBytes ≤ source.length := hstream.total ▸ hstream.offset_le
  have hwhole : s.client.target = source ↔ s.server.totalSentBytes = source.length := by
    rw [htarget,List.take_eq_self_iff]
    exact ⟨Nat.le_antisymm hle,fun he => he.ge⟩
  refine ⟨htarget,hread,hwhole,fun hs => ?_,fun tr' s' r' => ?_⟩
  · have hall := hstream.sentAll (Or.inr hs)
    rw [← hstream.total] at hall
    exact hwhole.mpr (Nat.le_antisymm hle hall)
  · refine closed_sends_nothing r' hclosed fun hpc => ?_
    rw [hstream.listen hpc] at hclosed
    cases hclosed

/- The server sends one of two bytes, is interrupted and cannot send any more; the client
downloads to an empty file. -/
def interruptedSchedule : List Action :=
  [.server (.done true),.client (.done true),.client (.done true),.server (.done true),
    .client (.done true),.server (.count (some 1)),.interrupt,.server (.count none),
    .client (.count (some 1)),.client (.count (some 1)),.client (.count (some 0)),
    .client (.count (some 0)),.client .tick]

theorem downloaded_sent_interrupted :
    let s := (runOf (step (ascii "ab")) (start []) interruptedSchedule).2
    s.server.totalSentBytes = 1 ∧ s.client.target = (ascii "ab").take 1 := by
  have h := downloaded_sent (runOf_run (step (ascii "ab")) (start []) interruptedSchedule
    (by decide +kernel)) (by decide +kernel) (by decide +kernel)
  have hone : (runOf (step (ascii "ab")) (start []) interruptedSchedule).2.server.totalSentBytes = 1 := by
    decide +kernel
  exact ⟨hone,hone ▸ h.1⟩

/- An early end of the stream is reported as success. -/
theorem downloaded_part : ¬ ∀ (source old : Bytes) (tr : List (State × Action)) (s : State),
    Run (step source) (start old) tr s → s.client.pc = .returned → s.client.target = source := by
  intro h
  have hpart := h _ _ _ _ (runOf_run (step (ascii "ab")) (start []) interruptedSchedule
    (by decide +kernel)) (by decide +kernel)
  exact absurd hpart (by decide +kernel)

end TcpProjects.FileSending
