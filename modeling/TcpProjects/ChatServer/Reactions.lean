import TcpProjects.ChatServer.Invariant

/-! # What a socketThread makes of its reads

Along a run the reactions of one `socketThread` (its chat broadcasts, its ping
replies and the requests it reports as unknown) are what `react` makes of the
chunks its `read` calls returned, one for each chunk and in their order. -/

namespace TcpProjects.ChatServer
open Transition

inductive Reaction where
  | broadcast (payload : Bytes)
  | reply (message : Bytes)
  | unknownRequest (text : Bytes)
  deriving DecidableEq

def react (socket : Fd) (chunk : Bytes) : Reaction :=
  match receive chunk with
  | .ping => .reply eventPing
  | .unknown text => .unknownRequest text
  | .chat text => .broadcast (formattedMessage socket text)

/- The chunk that thread `k` reads in a step. -/
def chunkRead (k : ℕ) (x : State × Action) : Option Bytes :=
  match x.2 with
  | .client j (.read (some chunk)) => if j = k ∧ chunk ≠ [] then some chunk else none
  | _ => none

/- What a step of a thread shows outside: it locks `mut` for a chat payload, sends
the reply, or prints the request it does not know. -/
def SocketThread.shows (t : SocketThread) (ans : Answer) : Option Reaction :=
  match t.pc, ans with
  | .distribute (.chat m) .lock, .tick => some (.broadcast ((Payload.chat m).data t.stack t.socket))
  | .sendEvent, .sent (some _) => some (.reply eventPing)
  | .read, .read (some chunk) =>
    match receive chunk with
    | .unknown text => if chunk = [] then none else some (.unknownRequest text)
    | _ => none
  | _, _ => none

def reaction (k : ℕ) (x : State × Action) : Option Reaction :=
  match x.2 with
  | .client j ans => if j = k then (x.1.thread k).bind fun t => t.shows ans else none
  | _ => none

/- The reaction a thread has begun and not yet shown. -/
def SocketThread.pending (t : SocketThread) : List Reaction :=
  match t.pc with
  | .distribute (.chat m) .lock => [.broadcast (formattedMessage t.socket m)]
  | .sendEvent => [.reply eventPing]
  | _ => []

section Step
variable {k j : ℕ} {s s' : State} {t : SocketThread} {g : Shared} {ans : Answer} {pc : PC}

theorem reaction_self (ht : s.thread k = some t) :
    reaction k (s,.client k ans) = t.shows ans := by
  simp only [reaction,if_true,ht,Option.bind_some]

theorem chunkRead_other (h : j ≠ k) : chunkRead k (s,.client j ans) = none := by
  simp only [chunkRead]
  split
  · next he =>
    cases he
    simp [h]
  · rfl

theorem reaction_other (h : j ≠ k) : reaction k (s,.client j ans) = none := by
  simp only [reaction,if_neg h]

/- Reading a chunk begins its reaction, and shows it if it is an unknown request. -/
theorem react_begun (chunk : Bytes) (hc : chunk ≠ []) (hpc : t.pc = .read) :
    (t.shows (.read (some chunk))).toList ++
      SocketThread.pending { t with pc := afterRead (some chunk) } = [react t.socket chunk] := by
  cases hr : receive chunk <;>
    simp [SocketThread.shows,SocketThread.pending,react,afterRead,hpc,hr,hc]

theorem react_eof {r : Option Bytes} (hr : r = none ∨ r = some []) (hpc : t.pc = .read) :
    t.shows (.read r) = none ∧ SocketThread.pending { t with pc := afterRead r } = [] ∧
      chunkRead k (s,.client k (.read r)) = none := by
  rcases hr with rfl | rfl
  · simp [SocketThread.shows,SocketThread.pending,afterRead,hpc,chunkRead]
  · refine ⟨?_,rfl,by simp [chunkRead]⟩
    have hx : receive [] = .chat [] := by decide
    simp [SocketThread.shows,hpc,hx]

/- One step of thread `k`: what was pending and what it reads becomes what it
shows and what is pending then. -/
theorem SocketStep.react_effect (ht : s.thread k = some t) (h : SocketStep k t s.shared ans g pc) :
    (reaction k (s,.client k ans)).toList ++ SocketThread.pending { t with pc := pc } =
      t.pending ++ ((chunkRead k (s,.client k ans)).toList.map (react t.socket)) := by
  rw [reaction_self ht]
  cases h with
  | @read r hpc =>
    have hp : t.pending = [] := by simp [SocketThread.pending,hpc]
    rw [hp,List.nil_append]
    cases r with
    | none =>
      obtain ⟨h1,h2,h3⟩ := react_eof (k := k) (s := s) (Or.inl rfl) hpc
      rw [h1,h2,h3]
      rfl
    | some chunk =>
      by_cases hc : chunk = []
      · obtain ⟨h1,h2,h3⟩ := react_eof (k := k) (s := s) (Or.inr (congrArg some hc)) hpc
        rw [h1,h2,h3]
        rfl
      · rw [react_begun chunk hc hpc]
        simp [chunkRead,hc]
  | @distributeLock p hpc _ =>
    cases p <;> simp [SocketThread.shows,SocketThread.pending,chunkRead,hpc,Payload.data]
  | @distributeUnlock p hpc =>
    cases p <;> simp [SocketThread.shows,SocketThread.pending,chunkRead,hpc,Payload.after]
  | @printUnlock p hpc =>
    cases p <;> simp [SocketThread.shows,SocketThread.pending,chunkRead,hpc,Payload.afterPrint]
  | sendThrow hpc | eventThrow hpc | closeThrow hpc =>
    simp [SocketThread.shows,SocketThread.pending,chunkRead,hpc]
  | _ => simp_all [SocketThread.shows,SocketThread.pending,chunkRead]

theorem react_frame {a : Action} (hk : ∀ ans, a ≠ .client k ans) :
    reaction k (s,a) = none ∧ chunkRead k (s,a) = none := by
  cases a with
  | client j ans =>
    have hj : j ≠ k := fun h => hk ans (h ▸ rfl)
    exact ⟨reaction_other hj,chunkRead_other hj⟩
  | _ => exact ⟨rfl,rfl⟩

end Step

/- The reactions of a thread so far, and the one it has begun, are those to the
chunks it has read. -/
theorem reactions_run {m : Fd} {addr : SockaddrIn} {tr : List (State × Action)} {s : State}
    (r : Run step (initial m addr) tr s) (k : ℕ) :
    (∀ t, s.thread k = some t → tr.filterMap (reaction k) ++ t.pending =
      (tr.filterMap (chunkRead k)).map (react t.socket)) ∧
    (s.thread k = none → tr.filterMap (reaction k) = [] ∧ tr.filterMap (chunkRead k) = []) := by
  induction r with
  | start =>
    refine ⟨?_,fun _ => ⟨rfl,rfl⟩⟩
    intro t ht
    cases ht
  | @next tr s a s' r h ih =>
    obtain ⟨hsome,hnone⟩ := ih
    have hc := step_cases h
    rw [filterMap_snoc,filterMap_snoc]
    by_cases hk : ∃ ans, a = .client k ans
    · obtain ⟨ans,rfl⟩ := hk
      cases hc with
      | @client _ t _ g pc _ ht hst =>
        have heff := hst.react_effect ht
        refine ⟨?_,?_⟩
        · intro u hu
          rw [s.advance_self] at hu
          cases hu
          rw [List.append_assoc,heff,← List.append_assoc,hsome t ht,List.map_append]
        · intro hu
          rw [s.advance_self] at hu
          cases hu
    · have hframe (ans : Answer) : a ≠ .client k ans := fun h => hk ⟨ans,h⟩
      obtain ⟨hr,hch⟩ := react_frame (s := s) hframe
      rw [hr,hch,Option.toList_none,Option.toList_none,List.append_nil,List.append_nil]
      rcases hc.thread_frame hframe with hsame | ⟨hnew,t,ht,hpc⟩
      · rw [hsame]
        exact ⟨hsome,hnone⟩
      · have hempty := hnone (by rw [hnew]; exact (run_safe r).ownership.fresh)
        refine ⟨?_,?_⟩
        · intro u hu
          cases ht.symm.trans hu
          rw [hempty.1,hempty.2]
          simp [SocketThread.pending,hpc]
        · intro hn
          rw [ht] at hn
          cases hn

end TcpProjects.ChatServer
