import TcpProjects.Base.Chunks
import TcpProjects.Protocol.Server

/-! # Where the receive loop ends

For an ordinal search: the inner loop of `Server.Start` ends with the chunk that reaches
over the first end marker of the stream, and its text is the stream up to the end of
that chunk. Decoding goes byte by byte, so that it does not matter where chunks end. -/

namespace TcpProjects.Protocol
open Transition ReadUntil

variable {clients : List Client} {c : Client} {s s' : Server} {n : ℕ}

def marker : Bytes := ascii "<EOF>"

theorem byte_lt (b : Byte) : b.val < 65536 := Nat.lt_trans b.isLt (by decide)

def decode (b : Byte) : CodeUnit := if b.val < 128 then ⟨b.val,byte_lt b⟩ else questionMark

theorem getString_map (bytes : Bytes) : getString bytes = bytes.map decode := rfl

/- No other byte is decoded as a character of the marker. -/
theorem decode_marker {b m : Byte} (hm : m ∈ marker) (h : decode b = decode m) : b = m := by
  have hascii : ∀ m ∈ marker, m.val < 128 ∧ m.val ≠ 63 := by decide +kernel
  obtain ⟨hlow,hmark⟩ := hascii m hm
  have hval := congrArg Fin.val h
  simp only [decode,if_pos hlow] at hval
  split_ifs at hval
  · exact Fin.ext hval
  · have hquestion : questionMark.val = 63 := by decide
    exact absurd (hval.symm.trans hquestion) hmark

theorem found_iff (bytes : Bytes) : Culture.ordinal.complete bytes = true ↔ marker <:+: bytes := by
  have hkept : (getString bytes).filter (fun c => !Culture.ordinal.ignores c) = getString bytes := by
    rw [List.filter_eq_self]
    exact fun _ _ => rfl
  have heof : eof = marker.map decode := by decide +kernel
  rw [Culture.complete,Culture.found,hkept,decide_eq_true_eq,heof,getString_map]
  constructor
  · intro h
    obtain ⟨l,hl,he⟩ := List.infix_map_iff.mp h
    have hsame : marker = l := by
      refine List.ext_getElem (by simpa using congrArg List.length he) fun i hi hj => ?_
      have hi' := congrArg (fun l => l[i]?) he
      simp only [List.getElem?_map,List.getElem?_eq_getElem hi,List.getElem?_eq_getElem hj,
        Option.map_some,Option.some.injEq] at hi'
      exact (decode_marker (List.getElem_mem hi) hi'.symm).symm
    exact hsame ▸ hl
  · intro h
    exact List.infix_map_iff.mpr ⟨marker,h,rfl⟩

/- The loop has one state for each number of `Receive` calls. -/
theorem run_loop (hc : clients[s.served]? = some c) (he : EndsAt c.receive Culture.ordinal.complete n)
    {tr : List (Server × Unit)} (r : Run (step .ordinal clients) (receiving s c 0) tr s') :
    (tr.length ≤ n → s' = receiving s c tr.length) ∧
    (tr.length = n+1 →
      s' = { s with pc := .send, log := s.log ++ [.packet s.served (c.data (n+1))] }) := by
  induction r with
  | start => exact ⟨fun _ => rfl,fun h => absurd h (by simp)⟩
  | @next tr u a s' r h ih =>
    rw [List.length_append,List.length_singleton]
    constructor
    · intro hle
      rw [ih.1 (Nat.le_of_succ_le hle),receive_step hc (he.succeed _ hle) (he.goOn _ hle)] at h
      exact (Option.some.inj h).symm
    · intro hlast
      have hn : tr.length = n := Nat.succ_inj.mp hlast
      rw [ih.1 (Nat.le_of_eq hn),hn,receive_end hc he.read he.complete] at h
      exact (Option.some.inj h).symm

/-- The loop ends at the first chunk boundary at or behind the end of the first marker,
in the run there is and in no other, and its text is the decoded stream up to there. -/
theorem receive_loop_framing {stream : Bytes} {chunks : List Bytes} (hcut : Chunking chunks stream)
    (hmarker : marker <:+: stream) (hc : clients[s.served]? = some c)
    (hr : c.receive = ofChunks chunks) (hpc : s.pc = .receive [] 0) :
    ∃ before n, First marker stream before ∧
      (∀ m ≤ n, boundary chunks m < before.length+marker.length) ∧
      before.length+marker.length ≤ boundary chunks (n+1) ∧
      (∃ tr s', Run (step .ordinal clients) s tr s' ∧ tr.length = n+1) ∧
      (∀ tr s', Run (step .ordinal clients) s tr s' →
        (tr.length ≤ n → s' = { s with
          pc := .receive (getString (stream.take (boundary chunks tr.length))) tr.length }) ∧
        (tr.length = n+1 → s' = { s with
          pc := .send
          log := s.log ++ [.packet s.served (getString (stream.take (boundary chunks (n+1))))] })) ∧
      (stream = before ++ marker → stream.take (boundary chunks (n+1)) = stream) := by
  have hs : receiving s c 0 = s := by
    obtain ⟨pc,served,log⟩ := s
    cases hpc
    rfl
  have hflat := hcut.flatten
  obtain ⟨before,hfirst⟩ := exists_first hmarker
  have hmono (a b : Bytes) (h : Culture.ordinal.complete a = true) :
      Culture.ordinal.complete (a ++ b) = true := Culture.ordinal.complete_append h b
  obtain ⟨n,he⟩ := (exists_endsAt_ofChunks hmono).mpr ((found_iff chunks.flatten).mpr (hflat ▸ hmarker))
  obtain ⟨hearly,hlate⟩ := (hflat ▸ hfirst).endsAt (by decide) found_iff he
  rw [← hr] at he
  have hdata (m : ℕ) : c.data m = getString (stream.take (boundary chunks m)) := by
    rw [Client.data,hr,gathered_ofChunks,← hflat,take_boundary]
  obtain ⟨tr,r,hlength⟩ := run_reads hc he.toReads
  refine ⟨before,n,hfirst,hearly,hlate,?_,fun tr s' r => ?_,fun hend => ?_⟩
  · refine ⟨_,_,hs ▸ r.next (receive_end hc he.read he.complete),?_⟩
    rw [List.length_append,hlength,List.length_singleton]
  · rw [← hdata,← hdata]
    exact run_loop hc he (hs.symm ▸ r)
  · refine List.take_of_length_le ?_
    have hsize := congrArg List.length hend
    rw [List.length_append] at hsize
    omega

/- The marker in three pieces, with a copy of its start before it. -/
def cutMarker : List Bytes := [ascii "a<EO<E",ascii "O",ascii "F>",ascii "b"]

def cutClient : Client := ⟨ofChunks cutMarker,true,true,true⟩

theorem receive_loop_framing_cut :
    ∃ before n, First marker (ascii "a<EO<EOF>b") before ∧
      (∀ m ≤ n, boundary cutMarker m < before.length+marker.length) ∧
      before.length+marker.length ≤ boundary cutMarker (n+1) ∧
      ∃ tr s', Run (step .ordinal [cutClient]) ⟨.receive [] 0,0,[]⟩ tr s' ∧ tr.length = n+1 := by
  obtain ⟨before,n,hfirst,hearly,hlate,hrun,_⟩ := receive_loop_framing
    (show Chunking cutMarker (ascii "a<EO<EOF>b") from ⟨by decide +kernel,by decide +kernel⟩)
    (by decide +kernel)
    (show [cutClient][(⟨.receive [] 0,0,[]⟩ : Server).served]? = some cutClient from rfl) rfl rfl
  exact ⟨before,n,hfirst,hearly,hlate,hrun⟩

end TcpProjects.Protocol
