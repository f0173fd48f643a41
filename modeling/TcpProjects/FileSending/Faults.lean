import TcpProjects.FileSending.Transfer

/-! # Transfers with failures

Any call may fail, any `write` may store less than it was given, and `SIGINT` may come
at any time. What is in the file is then still taken from the source in its order, and
what it lacks are the parts that `write` did not store: the client does not look at
what `write` returns, and counts what it has received. -/

namespace TcpProjects.FileSending
open Transition

variable {source old : Bytes} {s s' : State} {a : Action} {lost : ℕ}

/- The bytes that a `write` was given and did not store. -/
def lostBy (x : State × Action) : ℕ :=
  match x.1.client.pc, x.2 with
  | .write buffer, .client (.count (some k)) => buffer.length-k
  | _, _ => 0

/- The file holds parts of what was counted. -/
def Downloaded (source : Bytes) (lost : ℕ) (c : Client) : Prop :=
  c.target.Sublist (source.take c.totalSizeRead) ∧ c.target.length+lost = c.totalSizeRead

/- The file before `fopen` has returned. -/
def Untouched (old : Bytes) (lost : ℕ) (c : Client) : Prop :=
  c.target = old ∧ c.totalSizeRead = 0 ∧ lost = 0

def ClientKept (source old : Bytes) (lost : ℕ) (c : Client) : Prop :=
  match c.pc with
  | .fopen => Untouched old lost c
  | .connect | .openFile => Untouched [] lost c
  | .failed => Untouched old lost c ∨ Downloaded source lost c
  | _ => Downloaded source lost c ∧ c.position = c.target.length

theorem Untouched.downloaded {c : Client} (h : Untouched [] lost c) : Downloaded source lost c := by
  obtain ⟨htarget,hread,hlost⟩ := h
  rw [Downloaded,htarget,hread,hlost]
  exact ⟨List.nil_sublist _,rfl⟩

/- Whatever the client was doing when it failed. -/
theorem ClientKept.fail {c : Client} (h : ClientKept source old lost c) :
    Untouched old lost c ∨ Downloaded source lost c := by
  unfold ClientKept at h
  split at h
  · exact Or.inl h
  · exact Or.inr h.downloaded
  · exact Or.inr h.downloaded
  · exact h
  · exact Or.inr h.1

theorem lostBy_other (h : ∀ buffer k, ¬ (s.client.pc = .write buffer ∧ a = .client (.count (some k)))) :
    lostBy (s,a) = 0 := by
  unfold lostBy
  split
  · next buffer k hpc ha => exact absurd ⟨hpc,ha⟩ (h buffer k)
  · rfl

theorem ClientKept.step (h : ClientKept source old lost s.client)
    (hstream : s.client.pc ≠ .failed → Stream source s) (hs : Step source s a s') :
    ClientKept source old (lost+lostBy (s,a)) s'.client := by
  have hnone (hno : ∀ buffer k, ¬ (s.client.pc = .write buffer ∧ a = .client (.count (some k)))) :
      lost+lostBy (s,a) = lost := by rw [lostBy_other hno,Nat.add_zero]
  cases hs with
  | fopen hpc =>
    rw [hnone fun buffer k h => by cases h.2]
    unfold ClientKept at h
    simp only [hpc] at h
    exact ⟨rfl,h.2⟩
  | connect hpc =>
    rw [hnone fun buffer k h => by cases h.2]
    unfold ClientKept at h
    simp only [hpc] at h
    exact h
  | openFile hpc =>
    rw [hnone fun buffer k h => by cases h.2]
    unfold ClientKept at h
    simp only [hpc] at h
    exact ⟨h.downloaded,by rw [h.1]; rfl⟩
  | recv hpc =>
    rw [hnone fun buffer k h => by cases hpc.symm.trans h.1]
    unfold ClientKept at h
    simp only [hpc] at h
    exact h
  | @write buffer k hpc hk =>
    have hlost : lostBy (s,.client (.count (some k))) = buffer.length-k := by simp only [lostBy,hpc]
    unfold ClientKept at h
    simp only [hpc] at h
    obtain ⟨⟨hsub,hlength⟩,hposition⟩ := h
    obtain ⟨_,hoffset,hsent,hcount,_⟩ := hstream (by simp [hpc])
    rw [hpc] at hsent hcount
    simp only [ClientPC.pending] at hsent hcount
    have hnext := take_more (by omega) (by omega) hsent
    have hwritten : overwrite s.client.target s.client.position (buffer.take k) =
        s.client.target ++ buffer.take k := by rw [hposition,overwrite_end]
    have hdownloaded : Downloaded source (lost+(buffer.length-k))
        ⟨.afterRound buffer.length,s.client.totalSizeRead+buffer.length,
          s.client.target ++ buffer.take k,s.client.position+k⟩ := by
      refine ⟨?_,?_⟩
      · show (s.client.target ++ buffer.take k).Sublist (source.take (s.client.totalSizeRead+buffer.length))
        rw [hnext]
        exact hsub.append (List.take_sublist k buffer)
      · show (s.client.target ++ buffer.take k).length+(lost+(buffer.length-k)) =
          s.client.totalSizeRead+buffer.length
        rw [List.length_append,List.length_take,Nat.min_eq_left hk]
        omega
    have hend : s.client.position+k = (s.client.target ++ buffer.take k).length := by
      rw [List.length_append,List.length_take,Nat.min_eq_left hk,hposition]
    rw [hlost]
    simp only [hwritten]
    unfold ClientPC.afterRound at hdownloaded ⊢
    split_ifs at hdownloaded ⊢
    · exact ⟨hdownloaded,hend⟩
    · exact ⟨hdownloaded,hend⟩
  | close hpc =>
    rw [hnone fun buffer k h => by cases h.2]
    unfold ClientKept at h
    simp only [hpc] at h
    exact h
  | fail hans =>
    rw [hnone fun buffer k h => by rcases hans with rfl | rfl <;> cases h.2]
    exact h.fail
  | _ =>
    rw [hnone fun buffer k h => by cases h.2]
    exact h

/-! ### The counts of the server -/

structure ServerKept (source : Bytes) (s : State) : Prop where
  total : s.server.totalSentBytes = s.server.offset
  offset_le : s.server.offset ≤ source.length
  sentAll : s.server.pc = .exitHandler ∨ s.server.pc = .returned → source.length ≤ s.server.offset
  read_le : s.client.totalSizeRead ≤ s.server.offset

theorem ServerKept.step (h : ServerKept source s) (hstream : s.client.pc ≠ .failed → Stream source s)
    (hs : Step source s a s') : ServerKept source s' := by
  cases hs with
  | listen hpc => exact ⟨h.total,h.offset_le,by simp,h.read_le⟩
  | accept hpc => exact ⟨h.total,h.offset_le,by simp,h.read_le⟩
  | @sendfile n hpc hl hn =>
    obtain ⟨_,hfits,hlast⟩ := hn
    refine ⟨by simp only [h.total],hfits,fun hpc' => ?_,Nat.le_trans h.read_le (Nat.le_add_right _ _)⟩
    have hzero : n = 0 := by
      by_contra hne
      simp [ServerPC.afterRound,hne] at hpc'
    exact Nat.le_trans (hlast hzero) (Nat.le_add_right _ _)
  | exitHandler hpc => exact ⟨h.total,h.offset_le,fun _ => h.sentAll (Or.inl hpc),h.read_le⟩
  | exit => exact ⟨h.total,h.offset_le,by simp [State.exit],h.read_le⟩
  | abort => exact ⟨h.total,h.offset_le,by simp [State.exit],h.read_le⟩
  | @write buffer k hpc hk =>
    have hcount := (hstream (by simp [hpc])).count
    rw [hpc] at hcount
    simp only [ClientPC.pending] at hcount
    refine ⟨h.total,h.offset_le,h.sentAll,?_⟩
    show s.client.totalSizeRead+buffer.length ≤ s.server.offset
    omega
  | _ => exact ⟨h.total,h.offset_le,h.sentAll,h.read_le⟩

def ServerWaits (s : State) : Prop :=
  match s.server.pc with
  | .accept => s.server.deleted = false ∧ s.link ≠ .pending
  | .sendfile =>
    s.link = .established ∧ s.network ≠ [] ∧ s.client.pc ≠ .returned ∧ s.client.pc ≠ .failed
  | _ => False

def ClientWaits (s : State) : Prop :=
  s.client.pc = .recv ∧ s.network = [] ∧ (s.link = .pending ∨ s.link = .established)

/- Answers that the system can withhold; nobody has to send the signal. -/
def MayWait (s : State) : Action → Prop
  | .server _ => ServerWaits s
  | .client _ => ClientWaits s
  | .interrupt => True

/- The connection, whatever has failed. -/
structure Linked (s : State) : Prop where
  link : match s.link with
    | .listening => s.server.pc = .accept ∧ s.server.deleted = false ∧
        (s.client.pc.connected = true → s.client.pc = .failed)
    | .pending => s.server.pc = .accept ∧ s.server.deleted = false
    | .established => s.server.pc = .sendfile ∨ s.server.pc = .exitHandler
    | _ => s.server.pc = .accept → s.server.deleted = true
  listen : s.server.pc = .listen → s.client.pc.connected = true → s.client.pc = .failed

theorem Linked.closed (hlink : s'.link = s.link.close) (hpc : s'.server.pc = .accept → s'.server.deleted = true)
    (hlisten : s'.server.pc = .listen → s'.client.pc.connected = true → s'.client.pc = .failed) :
    Linked s' where
  link := by
    rw [hlink]
    cases s.link <;> exact hpc
  listen := hlisten

/- Steps of the client that do not make the connection. -/
theorem Linked.client (h : Linked s) (hserver : s'.server = s.server) (hlink : s'.link = s.link)
    (hpc : s'.client.pc.connected = true →
      s'.client.pc = .failed ∨ s.client.pc.connected = true ∧ s.client.pc ≠ .failed) : Linked s' where
  link := by
    have hof := h.link
    rw [hserver,hlink]
    split at hof
    · refine ⟨hof.1,hof.2.1,fun hyes => (hpc hyes).elim id fun hold => ?_⟩
      exact absurd (hof.2.2 hold.1) hold.2
    all_goals exact hof
  listen hserver' hyes := by
    rw [hserver] at hserver'
    exact (hpc hyes).elim id fun hold => absurd (h.listen hserver' hold.1) hold.2

theorem Linked.step (h : Linked s) (hs : Step source s a s') : Linked s' := by
  have hof := h.link
  cases hs with
  | listen hpc hd => exact ⟨⟨rfl,hd,h.listen hpc⟩,by simp⟩
  | accept hpc hl => exact ⟨Or.inl rfl,by simp⟩
  | @sendfile n hpc hl hn =>
    unfold ServerPC.afterRound
    split_ifs
    · exact ⟨by simp [hl],by simp⟩
    · exact ⟨by simp [hl],by simp⟩
  | exit => exact .closed rfl (by simp [State.exit]) (by simp [State.exit])
  | abort => exact .closed rfl (by simp [State.exit]) (by simp [State.exit])
  | exitHandler hpc hd => exact .closed rfl (by simp) (by simp)
  | interrupt hd => exact .closed rfl (fun _ => rfl) h.listen
  | connect hpc hl =>
    rw [hl] at hof
    exact ⟨⟨hof.1,hof.2.1⟩,fun hlisten => by cases hof.1.symm.trans hlisten⟩
  | fopen hpc => exact h.client rfl rfl (by simp [ClientPC.connected])
  | openFile hpc => exact h.client rfl rfl fun _ => Or.inr (by simp [hpc,ClientPC.connected])
  | recv hpc => exact h.client rfl rfl fun _ => Or.inr (by simp [hpc,ClientPC.connected])
  | write hpc => exact h.client rfl rfl fun _ => Or.inr (by simp [hpc,ClientPC.connected])
  | close hpc => exact h.client rfl rfl fun _ => Or.inr (by simp [hpc,ClientPC.connected])
  | fail => exact h.client rfl rfl fun _ => Or.inl rfl

def Ended (s : State) : Prop :=
  (s.server.pc = .returned ∨ s.server.pc = .failed) ∧ (s.client.pc = .returned ∨ s.client.pc = .failed)

/- Nobody will connect to the server any more. -/
def WaitsForNobody (s : State) : Prop :=
  s.server.pc = .accept ∧ s.server.deleted = false ∧ s.link = .listening ∧ s.client.pc = .failed

/- While the client waits for bytes, the server is on the way to `sendfile` or in it. -/
theorem Linked.server_goes_on (h : Linked s) (hwaits : ClientWaits s) :
    ¬ ServerWaits s ∧ s.server.pc ≠ .returned ∧ s.server.pc ≠ .failed := by
  have hof := h.link
  obtain ⟨_,hempty,hlink⟩ := hwaits
  refine ⟨fun hserver => ?_,?_⟩
  · unfold ServerWaits at hserver
    split at hserver
    · next hpc =>
      rcases hlink with hl | hl
      · exact hserver.2 hl
      · rw [hl] at hof
        rcases hof with h | h <;> cases hpc.symm.trans h
    · exact hserver.2.1 hempty
    · exact hserver
  · rcases hlink with hl | hl <;> rw [hl] at hof
    · simp [hof.1]
    · rcases hof with h | h <;> simp [h]

theorem Ended.no_step (h : Ended s) {a : Action} (hwaits : ¬ MayWait s a) : step source s a = none := by
  obtain ⟨hserver,hclient⟩ := h
  cases a with
  | server ans => rcases hserver with h | h <;> simp [step,serverStep,h]
  | client ans => rcases hclient with h | h <;> simp [step,clientStep,h]
  | interrupt => exact absurd trivial hwaits

theorem WaitsForNobody.no_step (h : WaitsForNobody s) {a : Action} (hwaits : ¬ MayWait s a) :
    step source s a = none := by
  obtain ⟨hpc,hd,hl,hclient⟩ := h
  cases a with
  | server ans =>
    refine absurd ?_ hwaits
    simp only [MayWait,ServerWaits,hpc]
    exact ⟨hd,by rw [hl]; decide⟩
  | client ans => simp [step,clientStep,hclient]
  | interrupt => exact absurd trivial hwaits

end TcpProjects.FileSending
