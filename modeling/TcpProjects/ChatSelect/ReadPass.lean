import TcpProjects.Base.CString
import TcpProjects.Base.Transition
import TcpProjects.ChatServer.Message

/-! # One pass over the ready clients

The loop "Read Messages" of `runServer`. Its `continue` behind an empty text does not
advance the iterator, so that the same client is read again; where `read` returns 0
the text is what an earlier client has left in the shared array; and the text that was
printed is sent back, which can wait for ever and can end the process. -/

namespace TcpProjects.ChatSelect
open ChatServer Transition

/-! ### The body of the loop -/

/- The branches behind `read`. -/
inductive Branch where
  | failed
  | empty
  | print (text : Bytes)

/- `none` is the -1 of a failed `read`, which stores nothing. -/
def readMessage (message : Buffer 2048) : Option Bytes → Buffer 2048 × Branch
  | none => (message,.failed)
  | some chunk =>
    let message := message.store chunk
    (message,if cText message.val = [] then .empty else .print (cText message.val))

/- What becomes of `send`: it blocks for ever if the client does not read, and `SIGPIPE`
kills the process if the connection was reset. -/
inductive Sent where
  | returned
  | blocked
  | killed
  deriving DecidableEq

/- A client of the list: whether `select` reports it, what its first `read` in this pass
returns, what it returns each further time, `none` if it blocks, and what becomes of the
`send` of its text. -/
structure Visit where
  clientSocket : Fd
  ready : Bool
  first : Option Bytes
  later : ℕ → Option (Option Bytes)
  sent : Sent

def Visit.read (v : Visit) : ℕ → Option (Option Bytes)
  | 0 => some v.first
  | k+1 => v.later k

/- `rest` starts at the iterator, `tries` counts the reads of the client there, and `sending`
says that its text was printed and is being sent. -/
structure Pass where
  rest : List Visit
  message : Buffer 2048
  tries : ℕ
  sending : Bool
  reads : List Fd
  printed : List (Fd × Bytes)

def Pass.start (clients : List Visit) (message : Buffer 2048) : Pass := ⟨clients,message,0,false,[],[]⟩

/- One round; none at the end of the list, while `read` or `send` blocks and behind `SIGPIPE`. -/
def Pass.next (s : Pass) (_ : Unit) : Option Pass :=
  match s.rest with
  | [] => none
  | v :: rest =>
    if s.sending then
      if v.sent = .returned then some { s with rest := rest, tries := 0, sending := false } else none
    else if v.ready then
      (v.read s.tries).map fun r =>
        let reads := s.reads ++ [v.clientSocket]
        match readMessage s.message r with
        | (message,.failed) => ⟨rest,message,0,false,reads,s.printed⟩
        | (message,.empty) => ⟨v :: rest,message,s.tries+1,false,reads,s.printed⟩
        | (message,.print text) =>
          ⟨v :: rest,message,s.tries,true,reads,s.printed ++ [(v.clientSocket,text)]⟩
    else some { s with rest := rest, tries := 0 }

/- The sockets that a pass has to read. -/
def readySockets (clients : List Visit) : List Fd := (clients.filter (·.ready)).map (·.clientSocket)

/-! ### Where the iterator advances -/

/- `read` returns a text that is not empty. -/
def Visit.HasText (v : Visit) : Prop := ∃ c chunk, v.first = some (c :: chunk) ∧ c ≠ nul

/- The array holds a text behind the clients of `pre`. -/
def Filled (message : Buffer 2048) (pre : List Visit) : Prop :=
  cText message.val ≠ [] ∨ ∃ v ∈ pre, v.ready = true ∧ v.HasText

/- The first `read` of a client behind those of `pre` leaves a text in the array. -/
def Prints (message : Buffer 2048) (pre : List Visit) (v : Visit) : Prop :=
  v.HasText ∨ v.first = some [] ∧ Filled message pre

/- It fails, or the text is printed and can be sent. -/
def Advances (message : Buffer 2048) (pre : List Visit) (v : Visit) : Prop :=
  v.first = none ∨ Prints message pre v ∧ v.sent = .returned

/- This holds of every ready client. -/
def AllAdvance (message : Buffer 2048) (clients : List Visit) : Prop :=
  ∀ pre v post, clients = pre ++ v :: post → v.ready = true → Advances message pre v

theorem cText_eq_nil {b : Bytes} : cText b = [] ↔ b = [] ∨ b.head? = some nul := by
  cases b with
  | nil => simp [cText]
  | cons c b =>
    by_cases hc : c = nul
    · simp [cText,hc,nul]
    · simp [cText_head c b hc,hc]

theorem store_nil (message : Buffer 2048) : message.store [] = message := by
  obtain ⟨l,hl⟩ := message
  apply Subtype.ext
  exact List.take_of_length_le (Nat.le_of_eq hl)

/- Only the first byte of a chunk decides. -/
theorem cText_store_cons (message : Buffer 2048) (c : Byte) (chunk : Bytes) :
    cText (message.store (c :: chunk)).val = [] ↔ c = nul := by
  change cText ((c :: (chunk ++ message.val.drop (chunk.length+1))).take 2048) = [] ↔ _
  rw [cText_eq_nil,List.take_succ_cons,List.head?_cons,Option.some.injEq]
  simp

variable {message : Buffer 2048} {pre post clients : List Visit} {v : Visit}

theorem filled_snoc : Filled message (pre ++ [v]) ↔ Filled message pre ∨ v.ready = true ∧ v.HasText := by
  unfold Filled
  constructor
  · rintro (h | ⟨u,hu,hread⟩)
    · exact Or.inl (Or.inl h)
    · rcases List.mem_append.mp hu with hu | hu
      · exact Or.inl (Or.inr ⟨u,hu,hread⟩)
      · rw [List.mem_singleton.mp hu] at hread
        exact Or.inr hread
  · rintro ((h | ⟨u,hu,hread⟩) | hv)
    · exact Or.inl h
    · exact Or.inr ⟨u,List.mem_append_left _ hu,hread⟩
    · exact Or.inr ⟨v,List.mem_append_right _ (List.mem_singleton_self v),hv⟩

theorem allAdvance_snoc : AllAdvance message (pre ++ [v]) ↔
    AllAdvance message pre ∧ (v.ready = true → Advances message pre v) := by
  constructor
  · intro h
    refine ⟨fun p u q hp hu => h p u (q ++ [v]) ?_ hu,h pre v [] rfl⟩
    rw [hp,List.append_assoc,List.cons_append]
  · rintro ⟨hpre,hv⟩ p u q hp hu
    rcases List.eq_nil_or_concat q with rfl | ⟨q,w,rfl⟩
    · obtain ⟨rfl,hlast⟩ := List.append_inj' hp rfl
      obtain rfl := (List.cons.inj hlast).1
      exact hv hu
    · rw [List.concat_eq_append,← List.cons_append,← List.append_assoc] at hp
      exact hpre p u q (List.append_inj' hp rfl).1 hu

theorem readySockets_snoc : readySockets (pre ++ [v]) =
    readySockets pre ++ if v.ready then [v.clientSocket] else [] := by
  simp only [readySockets,List.filter_append,List.map_append]
  cases hv : v.ready <;> simp [hv]

theorem readySockets_cons {rest : List Visit} : readySockets (v :: rest) =
    (if v.ready then [v.clientSocket] else []) ++ readySockets rest := by
  cases hv : v.ready <;> simp [readySockets,hv]

/- `array` is the shared array behind the clients of `pre`. -/
theorem prints_iff {array : Buffer 2048} {chunk : Bytes} (h : cText array.val ≠ [] ↔ Filled message pre)
    (hfirst : v.first = some chunk) : Prints message pre v ↔ cText (array.store chunk).val ≠ [] := by
  unfold Prints Visit.HasText
  rw [hfirst]
  cases chunk with
  | nil =>
    rw [store_nil,h]
    simp
  | cons c chunk =>
    rw [Ne,cText_store_cons]
    simp

theorem Prints.filled (hready : v.ready = true) (h : Prints message pre v) : Filled message (pre ++ [v]) := by
  rw [filled_snoc]
  rcases h with htext | ⟨_,hfilled⟩
  · exact Or.inr ⟨hready,htext⟩
  · exact Or.inl hfilled

/-! ### The invariant -/

/- Every client of `pre` was read once if it was ready, and advanced the iterator. -/
structure Behind (message : Buffer 2048) (clients pre : List Visit) (s : Pass) : Prop where
  split : clients = pre ++ s.rest
  tries : s.tries = 0
  sending : s.sending = false
  reads : s.reads = readySockets pre
  filled : cText s.message.val ≠ [] ↔ Filled message pre
  advance : AllAdvance message pre

/- The client behind those of `pre` was read once, and its text is being sent. -/
structure InSend (message : Buffer 2048) (clients pre : List Visit) (v : Visit) (s : Pass) : Prop where
  split : clients = pre ++ s.rest
  head : s.rest.head? = some v
  sending : s.sending = true
  ready : v.ready = true
  reads : s.reads = readySockets (pre ++ [v])
  text : cText s.message.val ≠ []
  prints : Prints message pre v
  advance : AllAdvance message pre

/- The clients that are to be read for the first time, or again. -/
def Pass.ahead (s : Pass) : List Visit := if s.sending then s.rest.tail else s.rest

/- More was read than there are ready clients. -/
def Late (clients : List Visit) (s : Pass) : Prop :=
  (readySockets clients).length < s.reads.length + (readySockets s.ahead).length

variable {s s' : Pass} {rest : List Visit} {tr : List (Pass × Unit)}

theorem next_sent (hrest : s.rest = v :: rest) (hsending : s.sending = true) (hsent : v.sent = .returned) :
    s.next () = some { s with rest := rest, tries := 0, sending := false } := by
  simp [Pass.next,hrest,hsending,hsent]

theorem next_skip (hrest : s.rest = v :: rest) (hsending : s.sending = false) (hready : v.ready = false) :
    s.next () = some { s with rest := rest, tries := 0 } := by
  simp [Pass.next,hrest,hsending,hready]

theorem next_failed (hrest : s.rest = v :: rest) (hsending : s.sending = false) (hready : v.ready = true)
    (hread : v.read s.tries = some none) :
    s.next () = some ⟨rest,s.message,0,false,s.reads ++ [v.clientSocket],s.printed⟩ := by
  simp [Pass.next,hrest,hsending,hready,hread,readMessage]

theorem next_again {chunk : Bytes} (hrest : s.rest = v :: rest) (hsending : s.sending = false)
    (hready : v.ready = true) (hread : v.read s.tries = some (some chunk))
    (hempty : cText (s.message.store chunk).val = []) :
    s.next () = some
      ⟨v :: rest,s.message.store chunk,s.tries+1,false,s.reads ++ [v.clientSocket],s.printed⟩ := by
  simp [Pass.next,hrest,hsending,hready,hread,readMessage,hempty]

theorem next_print {chunk : Bytes} (hrest : s.rest = v :: rest) (hsending : s.sending = false)
    (hready : v.ready = true) (hread : v.read s.tries = some (some chunk))
    (htext : cText (s.message.store chunk).val ≠ []) :
    s.next () = some ⟨v :: rest,s.message.store chunk,s.tries,true,s.reads ++ [v.clientSocket],
      s.printed ++ [(v.clientSocket,cText (s.message.store chunk).val)]⟩ := by
  simp [Pass.next,hrest,hsending,hready,hread,readMessage,htext]

/- What a round can do. -/
theorem next_cases (hrest : s.rest = v :: rest) (h : s.next () = some s') :
    (s.sending = true ∧ v.sent = .returned ∧ s' = { s with rest := rest, tries := 0, sending := false }) ∨
    (s.sending = false ∧ v.ready = false ∧ s' = { s with rest := rest, tries := 0 }) ∨
    (s.sending = false ∧ v.ready = true ∧ ∃ r, v.read s.tries = some r ∧
      s'.reads = s.reads ++ [v.clientSocket] ∧
      (s'.rest = v :: rest ∨ s'.rest = rest ∧ s'.sending = false)) := by
  cases hsending : s.sending with
  | true =>
    simp only [Pass.next,hrest,hsending,if_true] at h
    split_ifs at h with hsent
    exact Or.inl ⟨rfl,hsent,(Option.some.inj h).symm⟩
  | false =>
    cases hready : v.ready with
    | false =>
      have hskip := next_skip hrest hsending hready
      rw [hsending] at hskip
      exact Or.inr (Or.inl ⟨rfl,rfl,Option.some.inj (h.symm.trans hskip)⟩)
    | true =>
      simp only [Pass.next,hrest,hsending,hready,Bool.false_eq_true,if_true,if_false,
        Option.map_eq_some_iff] at h
      obtain ⟨r,hr,h⟩ := h
      refine Or.inr (Or.inr ⟨rfl,rfl,r,hr,?_⟩)
      split at h <;> subst h
      · exact ⟨rfl,Or.inr ⟨rfl,rfl⟩⟩
      · exact ⟨rfl,Or.inl rfl⟩
      · exact ⟨rfl,Or.inl rfl⟩

theorem behind_start : Behind message clients [] (Pass.start clients message) := by
  refine ⟨rfl,rfl,rfl,rfl,?_,fun pre v post he => ?_⟩
  · simp [Pass.start,Filled]
  · simp at he

/- A client that is not ready, or whose `read` fails. -/
theorem Behind.passes (h : Behind message clients pre s) (hrest : s.rest = v :: rest)
    (hpass : v.ready = true → v.first = none) :
    ∃ s', s.next () = some s' ∧ s'.rest = rest ∧ Behind message clients (pre ++ [v]) s' := by
  have hsplit : clients = (pre ++ [v]) ++ rest := by
    rw [h.split,hrest,List.append_assoc]
    rfl
  have hall := allAdvance_snoc.mpr ⟨h.advance,fun hready => Or.inl (hpass hready)⟩
  cases hready : v.ready with
  | false =>
    refine ⟨_,next_skip hrest h.sending hready,rfl,hsplit,rfl,h.sending,?_,?_,hall⟩
    · rw [readySockets_snoc,hready]
      simpa using h.reads
    · rw [filled_snoc,hready]
      simpa using h.filled
  | true =>
    have hfirst := hpass hready
    have hread : v.read s.tries = some none := by rw [h.tries,← hfirst]; rfl
    refine ⟨_,next_failed hrest h.sending hready hread,rfl,hsplit,rfl,rfl,?_,?_,hall⟩
    · rw [readySockets_snoc,hready,h.reads,if_pos rfl]
    · have hno : ¬ v.HasText := fun ⟨_,_,he,_⟩ => nomatch hfirst.symm.trans he
      rw [filled_snoc]
      simpa [hno] using h.filled

/- A client whose text is printed. -/
theorem Behind.prints (h : Behind message clients pre s) (hrest : s.rest = v :: rest)
    (hready : v.ready = true) (hprints : Prints message pre v) :
    ∃ s', s.next () = some s' ∧ s'.rest = v :: rest ∧ InSend message clients pre v s' := by
  obtain ⟨chunk,hfirst⟩ : ∃ chunk, v.first = some chunk := by
    rcases hprints with ⟨c,chunk,hfirst,_⟩ | ⟨hfirst,_⟩
    · exact ⟨_,hfirst⟩
    · exact ⟨_,hfirst⟩
  have htext := (prints_iff h.filled hfirst).mp hprints
  have hread : v.read s.tries = some (some chunk) := by rw [h.tries,← hfirst]; rfl
  refine ⟨_,next_print hrest h.sending hready hread htext,rfl,?_,rfl,rfl,hready,?_,htext,hprints,h.advance⟩
  · rw [h.split,hrest]
  · rw [readySockets_snoc,hready,h.reads,if_pos rfl]

theorem InSend.returns (h : InSend message clients pre v s) (hrest : s.rest = v :: rest)
    (hsent : v.sent = .returned) :
    ∃ s', s.next () = some s' ∧ s'.rest = rest ∧ Behind message clients (pre ++ [v]) s' := by
  refine ⟨_,next_sent hrest h.sending hsent,rfl,?_,rfl,rfl,h.reads,?_,?_⟩
  · rw [h.split,hrest,List.append_assoc]
    rfl
  · exact ⟨fun _ => h.prints.filled h.ready,fun _ => h.text⟩
  · exact allAdvance_snoc.mpr ⟨h.advance,fun _ => Or.inr ⟨h.prints,hsent⟩⟩

/- Otherwise the client is read again. -/
theorem Behind.stays (h : Behind message clients pre s) (hrest : s.rest = v :: rest) {chunk : Bytes}
    (hready : v.ready = true) (hfirst : v.first = some chunk) (hno : ¬ Prints message pre v)
    (hs : s.next () = some s') : Late clients s' := by
  rw [prints_iff h.filled hfirst,Ne,not_not] at hno
  have hread : v.read s.tries = some (some chunk) := by rw [h.tries,← hfirst]; rfl
  obtain rfl := Option.some.inj ((next_again hrest h.sending hready hread hno).symm.trans hs)
  rw [Late,h.split,hrest]
  simp only [Pass.ahead,Bool.false_eq_true,if_false,readySockets,List.filter_append,List.map_append,
    List.length_append,h.reads,List.length_singleton]
  omega

/- A client is only left behind a read. -/
theorem next_late (hlate : Late clients s) (h : s.next () = some s') : Late clients s' := by
  match hrest : s.rest with
  | [] =>
    rw [Pass.next,hrest] at h
    cases h
  | v :: rest =>
    rw [Late,Pass.ahead,hrest] at hlate
    rw [Late,Pass.ahead]
    rcases next_cases hrest h with ⟨hsending,_,rfl⟩ | ⟨hsending,hready,rfl⟩ | ⟨hsending,hready,r,_,hreads,hafter⟩
    · rw [hsending] at hlate
      exact hlate
    · simp only [hsending,Bool.false_eq_true,if_false,readySockets_cons,hready,List.nil_append] at hlate ⊢
      exact hlate
    · have hcons : (readySockets (v :: rest)).length = (readySockets rest).length+1 := by
        rw [readySockets_cons,hready,if_pos rfl]
        rfl
      simp only [hsending,Bool.false_eq_true,if_false] at hlate
      rw [hreads,List.length_append,List.length_singleton]
      rcases hafter with hsame | ⟨hnext,hdone⟩
      · rw [hsame]
        split_ifs
        · rw [List.tail_cons]
          omega
        · omega
      · rw [hnext,hdone,if_neg (by decide)]
        omega

theorem run_behind (r : Run Pass.next (Pass.start clients message) tr s) :
    (∃ pre, Behind message clients pre s) ∨ (∃ pre v, InSend message clients pre v s) ∨ Late clients s := by
  refine r.invariant (I := fun s => (∃ pre, Behind message clients pre s) ∨
    (∃ pre v, InSend message clients pre v s) ∨ Late clients s) (Or.inl ⟨[],behind_start⟩) ?_
  intro s _ s' hs h
  match hrest : s.rest with
  | [] =>
    rw [Pass.next,hrest] at h
    cases h
  | v :: rest =>
    rcases hs with ⟨pre,hpre⟩ | ⟨pre,u,hu⟩ | hlate
    · by_cases hpass : v.ready = true → v.first = none
      · obtain ⟨u,hu,_,hbehind⟩ := hpre.passes hrest hpass
        obtain rfl := Option.some.inj (hu.symm.trans h)
        exact Or.inl ⟨_,hbehind⟩
      · push Not at hpass
        obtain ⟨chunk,hfirst⟩ := Option.ne_none_iff_exists'.mp hpass.2
        by_cases hprints : Prints message pre v
        · obtain ⟨u,hu,_,hsend⟩ := hpre.prints hrest hpass.1 hprints
          obtain rfl := Option.some.inj (hu.symm.trans h)
          exact Or.inr (Or.inl ⟨_,_,hsend⟩)
        · exact Or.inr (Or.inr (hpre.stays hrest hpass.1 hfirst hprints h))
    · have hhead := hu.head
      rw [hrest] at hhead
      obtain rfl := Option.some.inj hhead
      rcases next_cases hrest h with ⟨_,hsent,_⟩ | ⟨hsending,_⟩ | ⟨hsending,_⟩
      · obtain ⟨w,hw,_,hbehind⟩ := hu.returns hrest hsent
        obtain rfl := Option.some.inj (hw.symm.trans h)
        exact Or.inl ⟨_,hbehind⟩
      · cases hsending.symm.trans hu.sending
      · cases hsending.symm.trans hu.sending
    · exact Or.inr (Or.inr (next_late hlate h))

/- The rest of a pass in which every client advances. -/
theorem run_rest (hall : AllAdvance message clients) (h : Behind message clients pre s) :
    ∃ tr s', Run Pass.next s tr s' ∧ s'.rest = [] ∧ ∃ pre, Behind message clients pre s' := by
  induction hrest : s.rest generalizing s pre with
  | nil => exact ⟨[],s,Run.start,hrest,pre,h⟩
  | cons v rest ih =>
    have hsplit := h.split
    rw [hrest] at hsplit
    by_cases hpass : v.ready = true → v.first = none
    · obtain ⟨u,hu,hurest,hubehind⟩ := h.passes hrest hpass
      obtain ⟨tr,s',r,hend,hs'⟩ := ih hubehind hurest
      exact ⟨_,s',r.cons hu,hend,hs'⟩
    · push Not at hpass
      rcases hall pre v rest hsplit hpass.1 with hfails | ⟨hprints,hsent⟩
      · exact absurd hfails hpass.2
      · -- One round prints, and one comes back from `send`.
        obtain ⟨u,hu,hurest,husend⟩ := h.prints hrest hpass.1 hprints
        obtain ⟨w,hw,hwrest,hwbehind⟩ := husend.returns hurest hsent
        obtain ⟨tr,s',r,hend,hs'⟩ := ih hwbehind hwrest
        exact ⟨_,s',(r.cons hw).cons hu,hend,hs'⟩

/-- The pass ends with one read of every ready client and of no other exactly if the first
`read` of every ready client fails, or leaves a text in the shared array whose `send`
returns. -/
theorem read_pass_once (clients : List Visit) (message : Buffer 2048) :
    (∃ tr s, Run Pass.next (Pass.start clients message) tr s ∧ s.rest = [] ∧ s.reads = readySockets clients) ↔
      AllAdvance message clients := by
  constructor
  · rintro ⟨tr,s,r,hrest,hreads⟩
    rcases run_behind r with ⟨pre,hpre⟩ | ⟨pre,v,hsend⟩ | hlate
    · rw [hpre.split,hrest,List.append_nil]
      exact hpre.advance
    · have hhead := hsend.head
      rw [hrest] at hhead
      cases hhead
    · rw [Late,Pass.ahead,hrest,hreads] at hlate
      split_ifs at hlate
      · exact absurd hlate (Nat.lt_irrefl _)
      · exact absurd hlate (Nat.lt_irrefl _)
  · intro hall
    obtain ⟨tr,s,r,hrest,pre,hpre⟩ := run_rest hall behind_start
    refine ⟨tr,s,r,hrest,?_⟩
    rw [hpre.reads,hpre.split,hrest,List.append_nil]

/- Behind an empty text, a client that closes is read for ever. -/
theorem run_empty {chunk : Bytes} (hready : v.ready = true) (hfirst : v.first = some (nul :: chunk))
    (hlater : ∀ k, v.later k = some (some []))
    (r : Run Pass.next (Pass.start (v :: rest) message) tr s) : s.rest = v :: rest := by
  let I (s : Pass) := s.rest = v :: rest ∧ s.sending = false ∧ (s.tries ≠ 0 → cText s.message.val = [])
  refine (r.invariant (I := I) ⟨rfl,rfl,fun h => absurd rfl h⟩ ?_).1
  rintro s _ s' ⟨hrest,hsending,htext⟩ h
  match htries : s.tries with
  | 0 =>
    have hempty := (cText_store_cons s.message nul chunk).mpr rfl
    have hread : v.read s.tries = some (some (nul :: chunk)) := by rw [htries,← hfirst]; rfl
    obtain rfl := Option.some.inj ((next_again hrest hsending hready hread hempty).symm.trans h)
    exact ⟨rfl,rfl,fun _ => hempty⟩
  | k+1 =>
    have hempty : cText (s.message.store []).val = [] := by
      rw [store_nil]
      exact htext (by rw [htries]; exact Nat.succ_ne_zero k)
    have hread : v.read s.tries = some (some []) := by rw [htries]; exact hlater k
    obtain rfl := Option.some.inj ((next_again hrest hsending hready hread hempty).symm.trans h)
    exact ⟨rfl,rfl,fun _ => hempty⟩

/- A client that sends an empty line and closes. -/
def emptyLine : Visit := ⟨4,true,some (List.replicate 2048 nul),fun _ => some (some []),.returned⟩

theorem read_pass_endless :
    ¬ ∃ tr s, Run Pass.next (Pass.start [emptyLine] (Buffer.zero 2048)) tr s ∧ s.rest = [] := by
  rintro ⟨tr,s,r,hend⟩
  exact nomatch hend.symm.trans (run_empty rfl rfl (fun _ => rfl) r)

end TcpProjects.ChatSelect
