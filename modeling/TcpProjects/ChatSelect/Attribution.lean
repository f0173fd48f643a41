import TcpProjects.ChatSelect.Waits

/-! # Whose text is printed

The server prints the names and the messages of its clients as long as every row of the
table holds its name with a terminator, every `read` of a message stays within one record
of the client, none comes to the end of a stream, and none of the empty texts is the last
that the client has sent. Nothing in the code sees to this: the rows are shorter than the
records of the names, the chunks of a stream are not put together, and `continue` goes
back to the same client. -/

namespace TcpProjects.ChatSelect
open ChatServer Transition

/-! ### One record a read -/

namespace Client
variable (c : Client)

/- The message records of which something stands before position `p` of the stream. -/
def begun (p : ℕ) : ℕ := (p-32+2047)/2048

/- The `n` bytes from `p` on belong to one record: they hold the text of a message with its
terminator, or start with a terminator behind the text. In that case more is to come, since
the client is read again. -/
def OneRecord (p n : ℕ) : Prop :=
  if 32 ≤ p ∧ (p-32)%2048 = 0 then (c.messages.getD ((p-32)/2048) []).length < n
  else c.stream[p]? = some nul ∧ p+n ≤ 32+2048*begun p ∧ p+n < c.stream.length

instance (p n : ℕ) : Decidable (c.OneRecord p n) := by
  delta OneRecord
  infer_instance

variable {c} {p n : ℕ}

theorem store_terminator (old : Buffer 2048) (hn : 0 < n) (hbyte : c.stream[p]? = some nul) :
    cText (old.store ((c.stream.drop p).take n)).val = [] := by
  obtain ⟨hp,hbyte⟩ := List.getElem?_eq_some_iff.mp hbyte
  obtain ⟨n,rfl⟩ := Nat.exists_eq_succ_of_ne_zero (Nat.ne_of_gt hn)
  rw [List.drop_eq_getElem_cons hp,hbyte,List.take_succ_cons]
  exact (cText_store_cons old nul _).mpr rfl

/- A `read` within one record prints nothing, or the next message. -/
theorem read_record (old : Buffer 2048) (hn : 0 < n) (hsize : n ≤ 2048) (hend : p+n ≤ c.stream.length)
    (h : c.OneRecord p n) :
    (cText (old.store ((c.stream.drop p).take n)).val = [] ∧ begun (p+n) = begun p ∧
      p+n < c.stream.length) ∨
    ∃ m, c.messages[begun p]? = some m ∧ cText (old.store ((c.stream.drop p).take n)).val = m ∧
      m ≠ [] ∧ begun (p+n) = begun p+1 := by
  unfold OneRecord at h
  split_ifs at h with hstart
  · right
    obtain ⟨j,rfl⟩ : ∃ j, p = 32+2048*j := ⟨(p-32)/2048,by omega⟩
    have hindex : (32+2048*j-32)/2048 = j := by omega
    have hbegun : begun (32+2048*j) = j := by unfold begun; omega
    rw [hindex] at h
    rw [c.stream_length] at hend
    obtain ⟨m,hm⟩ : ∃ m, c.messages[j]? = some m := ⟨_,List.getElem?_eq_getElem (by omega)⟩
    obtain ⟨hne,htyped⟩ := c.messages_typed m (List.mem_of_getElem? hm)
    rw [List.getD_eq_getElem?_getD,hm,Option.getD_some] at h
    obtain ⟨rest,hstream⟩ := c.stream_message hm
    refine ⟨m,by rw [hbegun]; exact hm,?_,hne,?_⟩
    · rw [hstream,old.store_val ((List.length_take_le _ _).trans hsize)]
      exact cText_read htyped.nulFree h _
    · rw [hbegun]
      unfold begun
      omega
  · refine Or.inl ⟨store_terminator old hn h.1,?_,h.2.2⟩
    have hrecord := h.2.1
    unfold begun at hrecord ⊢
    omega

end Client

/-! ### Rows of the table -/

/- The row of a descriptor holds a name with its terminator. -/
structure NameAt (table : Buffer 704) (fd : ℕ) (name : Bytes) : Prop where
  nulFree : NulFree name
  room : name.length < 22
  bytes : ∀ k ≤ name.length, table.val[22*fd+k]? = (name ++ [nul])[k]?

theorem NameAt.text {table : Buffer 704} {fd : ℕ} {name : Bytes} (h : NameAt table fd name) :
    cText (table.val.drop (22*fd)) = name := by
  have hrow : (table.val.drop (22*fd)).take (name.length+1) = name ++ [nul] := by
    apply List.ext_getElem?
    intro k
    rcases Nat.lt_or_ge k (name.length+1) with hk | hk
    · rw [List.getElem?_take_of_lt hk,List.getElem?_drop,h.bytes k (Nat.le_of_lt_succ hk)]
    · rw [List.getElem?_eq_none ((List.length_take_le _ _).trans hk),List.getElem?_eq_none (by simpa using hk)]
  have hsplit := List.take_append_drop (name.length+1) (table.val.drop (22*fd))
  rw [← hsplit,hrow,List.append_assoc]
  exact cText_append_nul h.nulFree _

/- Each row is stored for itself. -/
theorem NameAt.frame {table : Buffer 704} {fd fd' : ℕ} {name chunk : Bytes} (h : NameAt table fd name)
    (hne : fd ≠ fd') (hchunk : chunk.length ≤ 22) : NameAt (table.write ⟨22*fd',chunk⟩) fd name := by
  refine ⟨h.nulFree,h.room,fun k hk => ?_⟩
  have hroom := h.room
  rw [← h.bytes k hk]
  refine table.write_outside ?_
  change 22*fd+k < 22*fd' ∨ 22*fd'+chunk.length ≤ 22*fd+k
  omega

theorem nameAt_write (table : Buffer 704) {fd : ℕ} {name rest : Bytes} {n : ℕ} (hfree : NulFree name)
    (hfd : fd < 32) (hn : name.length < n) (hsize : n ≤ 22) :
    NameAt (table.write ⟨22*fd,(name ++ nul :: rest).take n⟩) fd name := by
  refine ⟨hfree,by omega,fun k hk => ?_⟩
  have hstored : ((name ++ nul :: rest).take n)[k]? = (name ++ [nul])[k]? := by
    rw [List.getElem?_take_of_lt (by omega),List.append_cons,
      List.getElem?_append_left (by simpa using Nat.lt_succ_of_le hk)]
  have hlength : k < ((name ++ nul :: rest).take n).length := by
    rw [List.length_take,List.length_append,List.length_cons]
    omega
  rw [← hstored]
  exact table.write_inside hlength (show 22*fd+k < 704 by omega)

/-! ### The condition and the property -/

section
variable {ι : Type*} (clients : ι → Client) (s : Server ι)

/- The socket that is accepted and whose name is not read yet. -/
def PC.awaited : PC ι → Option Fd
  | .readUsername newSocket _ _ => some newSocket
  | _ => none

/- The name that is read next comes with its terminator into a row of the table. -/
def GoodUsername (newSocket : Fd) (i : ι) : Prop :=
  newSocket < 32 ∧ (clients i).username.length < min 22 (s.available i)

/- The chunk that is read next is of one record, and is not the end of the stream. -/
def GoodMessage (i : ι) : Prop :=
  0 < s.available i ∧ (clients i).OneRecord (s.consumed i) (min 2048 (s.available i))

instance (newSocket : Fd) (i : ι) : Decidable (GoodUsername clients s newSocket i) :=
  inferInstanceAs (Decidable (_ ∧ _))

instance (i : ι) : Decidable (GoodMessage clients s i) :=
  inferInstanceAs (Decidable (_ ∧ _))

def GoodServer : PC ι → Prop
  | .readUsername newSocket i _ => GoodUsername clients s newSocket i
  | .readMessages ((clientSocket,i) :: _) readfds => clientSocket ∈ readfds → GoodMessage clients s i
  | _ => True

instance : (pc : PC ι) → Decidable (GoodServer clients s pc)
  | .readUsername newSocket i _ => inferInstanceAs (Decidable (GoodUsername clients s newSocket i))
  | .readMessages ((clientSocket,i) :: _) readfds =>
    inferInstanceAs (Decidable (clientSocket ∈ readfds → GoodMessage clients s i))
  | .select | .acceptClient _ | .readMessages [] _ | .send _ _ _ _ | .killed => isTrue trivial

/- The condition on a step. -/
def Good : Action ι → Prop
  | .server => GoodServer clients s s.pc
  | .failed | .sigpipe => False
  | _ => True

instance : (a : Action ι) → Decidable (Good clients s a)
  | .server => inferInstanceAs (Decidable (GoodServer clients s s.pc))
  | .failed | .sigpipe => isFalse id
  | .connect _ | .deliver _ _ | .close _ | .accept _ | .sent => isTrue trivial

/- What is printed for a socket. -/
def Server.printedFor (fd : Fd) : List Output :=
  s.stdout.filterMap fun line => if line.1 = fd then some line.2 else none

/- The name and the first `j` messages. -/
def linesOf (c : Client) (j : ℕ) : List Output :=
  .connected c.username :: (c.messages.take j).map (.message c.username)

theorem linesOf_succ {c : Client} {j : ℕ} {m : Bytes} (hm : c.messages[j]? = some m) :
    linesOf c (j+1) = linesOf c j ++ [.message c.username m] := by
  unfold linesOf
  rw [List.take_add_one,hm,Option.toList_some,List.map_append]
  rfl

/- What holds of a client whose name was read. -/
structure Told (fd : Fd) (i : ι) : Prop where
  row : NameAt s.username fd (clients i).username
  printed : s.printedFor fd = linesOf (clients i) (Client.begun (s.consumed i))

/- The clients that the pass has still to read, of those that `select` reported. -/
def PC.toRead (clientSockets : List (Fd × ι)) : PC ι → List (Fd × ι) × List Fd
  | .acceptClient readfds | .readUsername _ _ readfds => (clientSockets,readfds)
  | .readMessages rest readfds | .send _ _ rest readfds => (rest,readfds)
  | .select | .killed => ([],[])

/- Its end has come, or more is to come. -/
def Expected (i : ι) : Prop := s.closed i = true ∨ s.consumed i < (clients i).stream.length

def AllExpected (pc : PC ι) : Prop :=
  ∀ p ∈ (pc.toRead s.clientSockets).1, p.1 ∈ (pc.toRead s.clientSockets).2 → Expected clients s p.2

structure Inv : Prop where
  wired : Wired clients s
  unread : ∀ i, i ∉ s.clientSockets.map Prod.snd → s.consumed i = 0
  told : ∀ p ∈ s.clientSockets, s.pc.awaited ≠ some p.1 → Told clients s p.1 p.2
  awaited : ∀ fd i readfds, s.pc = .readUsername fd i readfds → s.consumed i = 0 ∧ s.printedFor fd = []
  known : ∀ line ∈ s.stdout, line.1 ∈ s.clientSockets.map Prod.fst
  alive : s.pc ≠ .killed
  expected : AllExpected clients s s.pc

variable {clients s}

theorem mem_print {fd : Fd} {line : Output} {x : Fd × Output} (h : x ∈ (s.print fd line).stdout) :
    x ∈ s.stdout ∨ x.1 = fd := by
  rcases List.mem_append.mp h with h | h
  · exact Or.inl h
  · exact Or.inr (congrArg Prod.fst (List.mem_singleton.mp h))

theorem printedFor_self {fd : Fd} {line : Output} :
    (s.print fd line).printedFor fd = s.printedFor fd ++ [line] := by
  unfold Server.printedFor Server.print
  rw [filterMap_snoc,if_pos rfl]
  rfl

theorem printedFor_other {fd fd' : Fd} {line : Output} (h : fd' ≠ fd) :
    (s.print fd line).printedFor fd' = s.printedFor fd' := by
  unfold Server.printedFor Server.print
  rw [filterMap_snoc,if_neg (Ne.symm h)]
  exact List.append_nil _

theorem Wired.owner {fd fd' : Fd} {i i' : ι} (h : Wired clients s) (hp : (fd,i) ∈ s.clientSockets)
    (hp' : (fd',i') ∈ s.clientSockets) : (fd = fd' → i = i') ∧ (i = i' → fd = fd') := by
  have howners := (List.nodup_append.mp h.owners).1
  constructor
  · intro he
    exact congrArg Prod.snd (List.inj_on_of_nodup_map h.sockets hp hp' he)
  · intro he
    exact congrArg Prod.fst (List.inj_on_of_nodup_map howners hp hp' he)

/- A socket that is not known has no line. -/
theorem Inv.printedFor_fresh {fd : Fd} (h : Inv clients s) (hfd : fd ∉ s.clientSockets.map Prod.fst) :
    s.printedFor fd = [] := by
  refine List.filterMap_eq_nil_iff.mpr fun line hline => if_neg fun he => ?_
  exact hfd (he ▸ h.known line hline)

/- A client that is reported has closed, or has sent more. -/
theorem Wired.expected {i : ι} (h : Wired clients s) (hread : s.readable i = true) : Expected clients s i := by
  have hstream := h.stream i
  rw [Server.readable,Bool.or_eq_true,decide_eq_true_eq] at hread
  rcases hread with hpos | hclosed
  · unfold Server.available at hpos
    exact Or.inr (by omega)
  · exact Or.inl hclosed

theorem Client.stream_pos (c : Client) : 32 ≤ c.stream.length := by
  rw [c.stream_length]
  omega

section
variable [DecidableEq ι] {s' : Server ι} {a : Action ι}

omit [DecidableEq ι] in
theorem inv_start (username : Buffer 704) (message : Buffer 2048) :
    Inv clients (Server.start username message : Server ι) where
  wired := wired_start username message
  unread := fun _ _ => rfl
  told := nofun
  awaited := nofun
  known := nofun
  alive := nofun
  expected := nofun

omit [DecidableEq ι] in
theorem Inv.goto {pc : PC ι} (h : Inv clients s) (hwired : Wired clients (s.goto pc))
    (hnow : s.pc.awaited = none) (hnew : pc.awaited = none) (halive : pc ≠ .killed)
    (hexpected : AllExpected clients s pc) : Inv clients (s.goto pc) where
  wired := hwired
  unread := h.unread
  told p hp _ :=
    have ht := h.told p hp (by rw [hnow]; nofun)
    ⟨ht.row,ht.printed⟩
  awaited fd i readfds he := by
    change pc = _ at he
    rw [he] at hnew
    cases hnew
  known := h.known
  alive := halive
  expected := hexpected

/- What the clients and the connections do. -/
omit [DecidableEq ι] in
theorem Inv.arrive {pending : List ι} {delivered : ι → ℕ} {closed : ι → Bool} (h : Inv clients s)
    (hwired : Wired clients { s with pending := pending, delivered := delivered, closed := closed })
    (hclosed : ∀ i, s.closed i = true → closed i = true) :
    Inv clients { s with pending := pending, delivered := delivered, closed := closed } where
  wired := hwired
  unread := h.unread
  told p hp hpc := ⟨(h.told p hp hpc).row,(h.told p hp hpc).printed⟩
  awaited := h.awaited
  known := h.known
  alive := h.alive
  expected p hp hfd := (h.expected p hp hfd).imp_left (hclosed p.2)

omit [DecidableEq ι] in
theorem Inv.accept {newSocket : Fd} {i : ι} {pending : List ι} {readfds : List Fd} (h : Inv clients s)
    (hwired : Wired clients { s with
      pc := .readUsername newSocket i readfds
      pending := pending
      clientSockets := s.clientSockets ++ [(newSocket,i)] })
    (hpc : s.pc = .acceptClient readfds) (hpending : s.pending = i :: pending)
    (hfresh : newSocket ∉ s.clientSockets.map Prod.fst) :
    Inv clients { s with
      pc := .readUsername newSocket i readfds
      pending := pending
      clientSockets := s.clientSockets ++ [(newSocket,i)] } := by
  have hunread : s.consumed i = 0 := by
    refine h.unread i fun hmem => ?_
    have howners := h.wired.owners
    rw [Server.present,hpending] at howners
    exact (List.nodup_append.mp howners).2.2 i hmem i List.mem_cons_self rfl
  have hold (p : Fd × ι) (hp : p ∈ s.clientSockets ++ [(newSocket,i)]) (hne : p ≠ (newSocket,i)) :
      p ∈ s.clientSockets :=
    (List.mem_append.mp hp).resolve_right fun hlast => hne (List.mem_singleton.mp hlast)
  refine ⟨hwired,fun i' hi' => ?_,fun p hp hne => ?_,fun fd i' readfds' he => ?_,fun line hline => ?_,
    by simp,fun p hp hfd => ?_⟩
  · rw [List.map_append,List.mem_append,not_or] at hi'
    exact h.unread i' hi'.1
  · have ht := h.told p (hold p hp fun he => hne (by rw [he]; rfl)) (by rw [hpc]; simp [PC.awaited])
    exact ⟨ht.row,ht.printed⟩
  · obtain ⟨rfl,rfl,_⟩ := PC.readUsername.inj he
    exact ⟨hunread,h.printedFor_fresh hfresh⟩
  · rw [List.map_append]
    exact List.mem_append_left _ (h.known line hline)
  · by_cases he : p = (newSocket,i)
    · subst he
      have hpos := (clients i).stream_pos
      exact Or.inr (show s.consumed i < (clients i).stream.length by omega)
    · have hexpected := h.expected
      rw [hpc] at hexpected
      exact hexpected p (hold p hp he) hfd

/-! ### The steps of the server -/

/- A read from one client leaves all others as they are. -/
theorem Inv.readFrom {fd : Fd} {i : ι} {k : ℕ} (h : Inv clients s) (hwired : Wired clients s')
    (hp : (fd,i) ∈ s.clientSockets) (hnow : ∀ fd', fd' ≠ fd → s.pc.awaited ≠ some fd')
    (hsockets : s'.clientSockets = s.clientSockets)
    (hconsumed : s'.consumed = Function.update s.consumed i (s.consumed i+k))
    (hpc : ∀ fd' i' readfds, s'.pc ≠ .readUsername fd' i' readfds) (halive : s'.pc ≠ .killed)
    (hrows : ∀ fd' name, fd' ≠ fd → NameAt s.username fd' name → NameAt s'.username fd' name)
    (hother : ∀ fd', fd' ≠ fd → s'.printedFor fd' = s.printedFor fd')
    (hknown : ∀ line ∈ s'.stdout, line ∈ s.stdout ∨ line.1 = fd) (htold : Told clients s' fd i)
    (hexpected : AllExpected clients s' s'.pc) : Inv clients s' where
  wired := hwired
  unread i' hi' := by
    rw [hsockets] at hi'
    have hne : i' ≠ i := fun he => hi' (List.mem_map.mpr ⟨(fd,i),hp,he.symm⟩)
    rw [hconsumed,Function.update_of_ne hne]
    exact h.unread i' hi'
  told := by
    rintro ⟨fd',i'⟩ hp' _
    rw [hsockets] at hp'
    by_cases hfd : fd' = fd
    · subst hfd
      obtain rfl := (h.wired.owner hp hp').1 rfl
      exact htold
    · have hi : i' ≠ i := fun he => hfd ((h.wired.owner hp' hp).2 he)
      have ht := h.told _ hp' (hnow fd' hfd)
      refine ⟨hrows fd' _ hfd ht.row,?_⟩
      rw [hother fd' hfd,hconsumed,Function.update_of_ne hi]
      exact ht.printed
  awaited fd' i' readfds he := absurd he (hpc fd' i' readfds)
  known line hline := by
    rw [hsockets]
    rcases hknown line hline with hold | hnew
    · exact h.known line hold
    · exact List.mem_map.mpr ⟨(fd,i),hp,hnew.symm⟩
  alive := halive
  expected := hexpected

/- What is expected of the other clients. -/
theorem Expected.update {i i' : ι} {k : ℕ} (h : Expected clients s i') (hi : i' ≠ i)
    (hclosed : s'.closed = s.closed)
    (hconsumed : s'.consumed = Function.update s.consumed i (s.consumed i+k)) : Expected clients s' i' := by
  rw [Expected,hclosed,hconsumed,Function.update_of_ne hi]
  exact h

/- The name of the socket that is awaited. -/
theorem Inv.named {fd : Fd} {i : ι} {readfds : List Fd} {chunk : Bytes} (h : Inv clients s)
    (hpc : s.pc = .readUsername fd i readfds) (hgood : GoodUsername clients s fd i)
    (hread : s.read clients i 22 = some chunk) (heffect : Effect clients s .server s')
    (hs : s' = (((s.consume i chunk).storeUsername fd chunk).print fd
      (.connected (((s.consume i chunk).storeUsername fd chunk).usernameAt fd))).goto
        (.readMessages s.clientSockets readfds)) : Inv clients s' := by
  obtain ⟨hconsumed,hprinted⟩ := h.awaited fd i readfds hpc
  obtain ⟨hfd,hroom⟩ := hgood
  have hwired := h.wired.effect heffect
  subst hs
  have hbytes := Server.read_some hread
  rw [hconsumed,List.drop_zero] at hbytes
  obtain ⟨rest,hstream⟩ := (clients i).stream_username
  have hfree := (clients i).username_typed.nulFree
  have hsize : chunk.length ≤ 22 := by
    rw [hbytes]
    exact (List.length_take_le _ _).trans (Nat.min_le_left _ _)
  have hrow : NameAt (s.username.write ⟨22*fd,chunk⟩) fd (clients i).username := by
    rw [hbytes,hstream]
    exact nameAt_write _ hfree hfd hroom (Nat.min_le_left _ _)
  refine h.readFrom hwired (h.wired.naming _ _ _ hpc) (fun fd' hne he => hne ?_) rfl rfl
    (fun _ _ _ he => by cases he) (fun he => by cases he)
    (fun fd' name hne hname => hname.frame hne hsize) (fun fd' hne => printedFor_other hne)
    (fun line hline => mem_print hline) ⟨hrow,?_⟩ (fun p hp hfd' => ?_)
  · rw [hpc] at he
    exact (Option.some.inj he).symm
  · have hbegun : Client.begun (Function.update s.consumed i (s.consumed i+chunk.length) i) = 0 := by
      rw [Function.update_self,hconsumed]
      unfold Client.begun
      omega
    refine printedFor_self.trans ?_
    change s.printedFor fd ++ _ = linesOf _ (Client.begun (Function.update s.consumed i _ i))
    rw [hbegun,hprinted]
    exact congrArg (fun name => [Output.connected name]) hrow.text
  · -- Of the record of the name, 10 bytes are left.
    by_cases hi : p.2 = i
    · refine Or.inr ?_
      change Function.update s.consumed i _ p.2 < _
      rw [hi,Function.update_self,hconsumed]
      have hpos := (clients i).stream_pos
      omega
    · have hexpected := h.expected
      rw [hpc] at hexpected
      exact (hexpected p hp hfd').update hi rfl rfl

omit [DecidableEq ι] in
/- What is seen of the chunk that is read next. -/
theorem Inv.next {i : ι} {chunk : Bytes} (h : Inv clients s) (hgood : GoodMessage clients s i)
    (hchunk : s.read clients i 2048 = some chunk) :
    (cText (s.message.store chunk).val = [] ∧
      Client.begun (s.consumed i+chunk.length) = Client.begun (s.consumed i) ∧
      s.consumed i+chunk.length < (clients i).stream.length) ∨
    ∃ m, (clients i).messages[Client.begun (s.consumed i)]? = some m ∧
      cText (s.message.store chunk).val = m ∧ m ≠ [] ∧
        Client.begun (s.consumed i+chunk.length) = Client.begun (s.consumed i)+1 := by
  obtain ⟨hpos,hrecord⟩ := hgood
  have hlength := (h.wired.read_length hchunk).1
  have hstream := h.wired.stream i
  have hall : s.consumed i+min 2048 (s.available i) ≤ (clients i).stream.length := by
    unfold Server.available
    omega
  rw [hlength,Server.read_some hchunk]
  exact Client.read_record s.message (by omega) (Nat.min_le_left _ _) hall hrecord

/- An empty text: the same client is read again. -/
theorem Inv.again {fd : Fd} {i : ι} {rest : List (Fd × ι)} {readfds : List Fd} {chunk : Bytes}
    (h : Inv clients s) (hpc : s.pc = .readMessages ((fd,i) :: rest) readfds)
    (hgood : GoodMessage clients s i) (hread : s.read clients i 2048 = some chunk)
    (hempty : cText (s.message.store chunk).val = []) (heffect : Effect clients s .server s')
    (hs : s' = { s.consume i chunk with
      message := s.message.store chunk
      pc := .readMessages ((fd,i) :: rest) readfds }) : Inv clients s' := by
  have hwired := h.wired.effect heffect
  have hp := (h.wired.iterator _ _ hpc).subset List.mem_cons_self
  have ht := h.told (fd,i) hp (by rw [hpc]; nofun)
  obtain ⟨_,hbegun,hmore⟩ := (h.next hgood hread).resolve_right
    fun ⟨m,_,htext,hne,_⟩ => hne (htext.symm.trans hempty)
  subst hs
  refine h.readFrom hwired hp (fun _ _ => by rw [hpc]; nofun) rfl rfl (fun _ _ _ he => by cases he)
    (fun he => by cases he) (fun _ _ _ hname => hname) (fun _ _ => rfl) (fun _ hline => Or.inl hline)
    ⟨ht.row,?_⟩ (fun p hp' hfd => ?_)
  · change s.printedFor fd = linesOf _ (Client.begun (Function.update s.consumed i _ i))
    rw [Function.update_self,hbegun]
    exact ht.printed
  · by_cases hi : p.2 = i
    · refine Or.inr ?_
      change Function.update s.consumed i _ p.2 < _
      rw [hi,Function.update_self]
      exact hmore
    · have hexpected := h.expected
      rw [hpc] at hexpected
      exact (hexpected p hp' hfd).update hi rfl rfl

/- A message: it is printed, and sent back. -/
theorem Inv.printed {fd : Fd} {i : ι} {rest : List (Fd × ι)} {readfds : List Fd} {chunk : Bytes}
    (h : Inv clients s) (hpc : s.pc = .readMessages ((fd,i) :: rest) readfds)
    (hgood : GoodMessage clients s i) (hread : s.read clients i 2048 = some chunk)
    (htext : cText (s.message.store chunk).val ≠ []) (heffect : Effect clients s .server s')
    (hs : s' = { s.consume i chunk with
      message := s.message.store chunk
      pc := .send fd i rest readfds }.print fd
        (.message (s.usernameAt fd) (cText (s.message.store chunk).val))) : Inv clients s' := by
  have hwired := h.wired.effect heffect
  have hiterator := h.wired.iterator _ _ hpc
  have hp := hiterator.subset List.mem_cons_self
  have ht := h.told (fd,i) hp (by rw [hpc]; nofun)
  obtain ⟨m,hm,hmessage,_,hbegun⟩ := (h.next hgood hread).resolve_left fun hno => htext hno.1
  subst hs
  refine h.readFrom hwired hp (fun _ _ => by rw [hpc]; nofun) rfl rfl (fun _ _ _ he => by cases he)
    (fun he => by cases he) (fun _ _ _ hname => hname) (fun _ hfd => printedFor_other hfd)
    (fun _ hline => mem_print hline) ⟨ht.row,?_⟩ (fun p hp' hfd => ?_)
  · refine printedFor_self.trans ?_
    change s.printedFor fd ++ _ = linesOf _ (Client.begun (Function.update s.consumed i _ i))
    rw [Function.update_self,hbegun,ht.printed,hmessage,linesOf_succ hm]
    exact congrArg (fun name => _ ++ [Output.message name m]) ht.row.text
  · -- The iterator comes to each client once.
    have hi : p.2 ≠ i := by
      have hnodup := h.wired.owners.sublist (hiterator.sublist.map Prod.snd |>.trans (List.sublist_append_left _ _))
      intro he
      exact (List.nodup_cons.mp hnodup).1 (List.mem_map.mpr ⟨p,hp',he⟩)
    have hexpected := h.expected
    rw [hpc] at hexpected
    exact (hexpected p (List.mem_cons_of_mem _ hp') hfd).update hi rfl rfl

theorem Inv.runServer (h : Inv clients s) (hgood : GoodServer clients s s.pc)
    (hs : s.runServer clients = some s') : Inv clients s' := by
  have heffect := runServer_effect hs
  have hwired := h.wired.effect heffect
  have hnow (hpc : ∀ fd i readfds, s.pc ≠ .readUsername fd i readfds) : s.pc.awaited = none := by
    unfold PC.awaited
    split
    · next hpc' => exact absurd hpc' (hpc _ _ _)
    · rfl
  cases heffect with
  | accepts hpc hpending =>
    refine h.goto hwired (hnow (by simp [hpc])) rfl (by simp) fun p hp hfd => ?_
    obtain ⟨p',hp',he⟩ := List.mem_map.mp hfd
    have hlisted := List.mem_filter.mp hp'
    rw [← (h.wired.owner (show (p'.1,p'.2) ∈ s.clientSockets from hlisted.1) hp).1 he]
    exact h.wired.expected hlisted.2
  | reads hpc hready =>
    refine h.goto hwired (hnow (by simp [hpc])) rfl (by simp) fun p hp hfd => ?_
    obtain ⟨p',hp',he⟩ := List.mem_map.mp hfd
    have hlisted := List.mem_filter.mp hp'
    rw [← (h.wired.owner (show (p'.1,p'.2) ∈ s.clientSockets from hlisted.1) hp).1 he]
    exact h.wired.expected hlisted.2
  | named hpc hread =>
    rw [hpc] at hgood
    exact h.named hpc hgood hread (.named hpc hread) rfl
  | passed hpc => exact h.goto hwired (hnow (by simp [hpc])) rfl (by simp) nofun
  | skipped hpc hnot =>
    refine h.goto hwired (hnow (by simp [hpc])) rfl (by simp) fun p hp hfd => ?_
    have hexpected := h.expected
    rw [hpc] at hexpected
    exact hexpected p (List.mem_cons_of_mem _ hp) hfd
  | again hpc hmem hread hempty =>
    rw [hpc] at hgood
    exact h.again hpc (hgood hmem) hread hempty (.again hpc hmem hread hempty) rfl
  | printed hpc hmem hread htext =>
    rw [hpc] at hgood
    exact h.printed hpc (hgood hmem) hread htext (.printed hpc hmem hread htext) rfl

theorem Inv.step (h : Inv clients s) (hgood : Good clients s a) (hs : s.step clients a = some s') :
    Inv clients s' := by
  have hwired := h.wired.step hs
  cases a with
  | connect i =>
    rw [Server.step] at hs
    split_ifs at hs
    obtain rfl := Option.some.inj hs
    exact h.arrive hwired fun _ hclosed => hclosed
  | deliver i n =>
    rw [Server.step] at hs
    split_ifs at hs
    obtain rfl := Option.some.inj hs
    exact h.arrive hwired fun _ hclosed => hclosed
  | close i =>
    rw [Server.step] at hs
    split_ifs at hs
    obtain rfl := Option.some.inj hs
    refine h.arrive hwired fun i' hclosed => ?_
    by_cases hi : i' = i
    · rw [hi,Function.update_self]
    · rwa [Function.update_of_ne hi]
  | accept newSocket =>
    obtain ⟨i,pending,readfds,hpc,hpending,hfresh,rfl⟩ := Server.acceptClient_some hs
    exact h.accept hwired hpc hpending hfresh
  | failed => exact hgood.elim
  | sigpipe => exact hgood.elim
  | sent =>
    obtain ⟨clientSocket,i,rest,readfds,hpc,rfl⟩ := Server.sendReturns_some hs
    have hexpected := h.expected
    rw [hpc] at hexpected
    exact h.goto hwired (by rw [hpc]; rfl) rfl (by simp) hexpected
  | server => exact h.runServer hgood hs

/-! ### The result -/

/- A `read` that meets the condition gets a byte. -/
theorem Good.fed (hgood : Good clients s a) (ha : a.ofServer = true) (hs : s.step clients a = some s') :
    Fed s := by
  cases a with
  | connect i | deliver i n | close i => cases ha
  | failed | sigpipe => exact hgood.elim
  | accept newSocket =>
    obtain ⟨i,pending,readfds,hpc,_⟩ := Server.acceptClient_some hs
    simp only [Fed,hpc]
  | sent =>
    obtain ⟨clientSocket,i,rest,readfds,hpc,_⟩ := Server.sendReturns_some hs
    simp only [Fed,hpc]
  | server =>
    change GoodServer clients s s.pc at hgood
    unfold Fed
    split
    · next i _ hpc =>
      rw [hpc] at hgood
      have hroom := hgood.2
      omega
    · next fd i rest readfds hpc =>
      rw [hpc] at hgood
      exact fun hmem => (hgood hmem).1
    · trivial

/- Where the server cannot go on and all has come, it waits in `select` for nobody. -/
theorem Inv.idle (h : Inv clients s) (hnone : ∀ a : Action ι, a.ofServer = true → s.step clients a = none)
    (hall : ∀ i ∈ s.present, s.delivered i = (clients i).stream.length) : Idle s := by
  have hmore {i : ι} (hi : i ∈ s.present) (hquiet : s.readable i = false) :
      (clients i).stream.length ≤ s.consumed i := by
    have hcome := hall i hi
    rw [Server.readable,Bool.or_eq_false_iff,decide_eq_false_iff_not] at hquiet
    have hempty := hquiet.1
    unfold Server.available at hempty
    omega
  rcases h.wired.waits (fun a ha => hnone a (own_ofServer ha)) with
    hidle | ⟨i,hquiet,⟨fd,readfds,hpc⟩ | ⟨fd,rest,readfds,hpc,hmem⟩⟩ | ⟨i,fd,rest,readfds,hpc⟩ | hkilled
  · exact hidle
  · have hle := hmore (i := i) (Server.mem_present (h.wired.naming _ _ _ hpc)) hquiet
    have hunread := (h.awaited _ _ _ hpc).1
    have hpos := (clients i).stream_pos
    omega
  · have hle := hmore (i := i) (Server.mem_present ((h.wired.iterator _ _ hpc).subset List.mem_cons_self)) hquiet
    have hexpected := h.expected
    rw [hpc] at hexpected
    rcases hexpected (fd,i) List.mem_cons_self hmem with hclosed | hless
    · rw [Server.readable,hclosed,Bool.or_true] at hquiet
      cases hquiet
    · exact absurd hless (Nat.not_lt_of_le hle)
  · have hsent := hnone .sent rfl
    rw [Server.step,Server.sendReturns,hpc] at hsent
    cases hsent
  · exact absurd hkilled h.alive

/- At rest everything that has come was read, and its messages are printed. -/
omit [DecidableEq ι] in
theorem Idle.printed {p : Fd × ι} (h : Idle s) (hinv : Inv clients s) (hp : p ∈ s.clientSockets) :
    s.printedFor p.1 = linesOf (clients p.2) (Client.begun (s.delivered p.2)) := by
  obtain ⟨hpc,_,hquiet⟩ := h
  have hread := hquiet p hp
  have hstream := hinv.wired.stream p.2
  rw [Server.readable,Bool.or_eq_false_iff,decide_eq_false_iff_not] at hread
  have hall : s.delivered p.2 = s.consumed p.2 := by
    have hnone := hread.1
    unfold Server.available at hnone
    omega
  rw [hall]
  exact (hinv.told p hp (by rw [hpc]; simp [PC.awaited])).printed

end

end

theorem hi_typed : ∀ m ∈ [ascii "hi"], m ≠ [] ∧ TypedLine 2046 m := by decide +kernel

/- Two clients whose arrays hold zeros, and who say the same. -/
def bob : Client := ⟨ascii "bob",[ascii "hi"],.zero 32,.zero 2048,by decide +kernel,hi_typed⟩
/- One client, with the arrays of the server zeroed. -/
def runBob (actions : List (Action Unit)) : List (Server Unit × Action Unit) × Server Unit :=
  runOf (Server.step fun _ => bob) (Server.start (.zero 704) (.zero 2048)) actions

end TcpProjects.ChatSelect
