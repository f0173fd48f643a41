import TcpProjects.Base.CString
import TcpProjects.Base.Words

/-! # Util::split

One pass over the characters with the token that is being read (`buff`) and the
tokens found so far (`list`). The tokens are the words of the string. -/

namespace TcpProjects.Util
open Words

/- One round of the loop, on `buff` and `list`. -/
def splitStep (c : Byte) (r : Bytes × List Bytes) (n : Byte) : Bytes × List Bytes :=
  if n ≠ c then (r.1 ++ [n],r.2)
  else if n = c ∧ r.1 ≠ [] then ([],r.2 ++ [r.1])
  else r

/- What is left in `buff` after the loop is the last token. -/
def lastToken (r : Bytes × List Bytes) : List Bytes := if r.1 ≠ [] then r.2 ++ [r.1] else r.2

def split (s : Bytes) (c : Byte) : List Bytes := lastToken (s.foldl (splitStep c) ([],[]))

/- From any point of the loop on, the tokens to come are the words from there. -/
theorem foldl_splitStep (c : Byte) (s buff : Bytes) (list : List Bytes) :
    lastToken (s.foldl (splitStep c) (buff,list)) = list ++ wordsFrom c buff s := by
  induction s generalizing buff list with
  | nil =>
    rw [List.foldl_nil,lastToken,wordsFrom,pending]
    by_cases hb : buff = []
    · simp [hb]
    · simp [hb]
  | cons n s ih =>
    rw [List.foldl_cons,wordsFrom]
    by_cases hn : n = c
    · by_cases hb : buff = []
      · have hstep : splitStep c (buff,list) n = ([],list) := by simp [splitStep,hn,hb]
        rw [hstep,if_pos hn,ih,hb]
        rfl
      · have hstep : splitStep c (buff,list) n = ([],list ++ [buff]) := by simp [splitStep,hn,hb]
        rw [hstep,if_pos hn,ih,pending,if_neg hb,List.append_assoc]
    · have hstep : splitStep c (buff,list) n = (buff ++ [n],list) := by simp [splitStep,hn]
      rw [hstep,if_neg hn,ih]

theorem split_words (s : Bytes) (c : Byte) : split s c = words c s :=
  foldl_splitStep c s [] []

/-- The tokens are the maximal runs of other characters, in order; nothing but the
delimiters is lost; and tokens that are put together with delimiters between them
are read back. -/
theorem split_tokens (s : Bytes) (c : Byte) :
    (∃ spans : List (ℕ × ℕ), (∀ i j, (i,j) ∈ spans ↔ IsRun c s i j) ∧
      (spans.Pairwise fun q r => q.2 < r.1) ∧ split s c = spans.map (slice s)) ∧
    (∀ t ∈ split s c, t ≠ [] ∧ c ∉ t) ∧
    (split s c).flatten = s.filter (· ≠ c) ∧
    ∀ (lead : ℕ) (tokens : List (Bytes × ℕ)), (∀ t ∈ tokens, t.1 ≠ [] ∧ c ∉ t.1) →
      (∀ t ∈ tokens.dropLast, 0 < t.2) → s = spaced c lead tokens →
        split s c = tokens.map Prod.fst := by
  rw [split_words]
  refine ⟨⟨runs c s,fun i j => mem_runs,runs_sorted c s,words_slice c s⟩,mem_words,
    words_flatten c s,?_⟩
  intro lead tokens htokens hgaps hs
  rw [hs]
  exact words_spaced htokens hgaps

/- Two spaces at the start, three in the middle and one at the end. -/
theorem split_tokens_padded :
    split (ascii "  help   me ") (byte ' ') = [ascii "help",ascii "me"] :=
  (split_tokens (ascii "  help   me ") (byte ' ')).2.2.2 2 [(ascii "help",3),(ascii "me",1)]
    (by decide +kernel) (by decide +kernel) (by decide +kernel)

end TcpProjects.Util
