import RefFlow.Convert.Rules
import RefFlow.Proofs.Concrete
import RefFlow.Proofs.Tree.Parts

/-!
# Symbols and the names of kinds

A construct without a rule of its own gets the kind that its symbol spells, with capitals in place
of underscores.  For an arbitrary symbol this may be the name of a kind that is made elsewhere: the
kind that `call_Expression` spells is that of a call.  Where a symbol is one that a grammar can
have, it can be read off the name that it spells (`symbol_of_name`), so that the kinds whose parts
are asked for without a further look are spelled by no symbol that comes without a rule
(`kindOfSymbol_of_grammatical`).
-/

namespace RefFlow.Convert

open Text

/-! ## Words -/

/-- What is found out for the numbers of plain characters holds for these. -/
@[elab_as_elim] lemma of_isPlain {P : Char → Prop} {c : Char} (h : IsPlain c)
    (hall : ∀ n < 128, (Char.ofNat n).isUpper = false → P (Char.ofNat n)) : P c := by
  have hc := hall c.toNat h.1
  rw [Char.ofNat_toNat] at hc
  exact hc h.2

/-- Of runs of which all but the first start further up, only the first can cover a plain
character. -/
lemma find?_covers_of_lt {r : CaseRun} {rs : List CaseRun} (h : ∀ s ∈ rs, 128 ≤ s.start) {n : Nat}
    (hn : n < 128) :
    (r :: rs).find? (·.covers n) = if r.covers n = true then some r else none := by
  have hrest : rs.find? (·.covers n) = none := by
    refine List.find?_eq_none.2 fun s hs => ?_
    have hstart := h s hs
    simp only [CaseRun.covers, Bool.and_eq_true, decide_eq_true_eq]
    omega
  rw [List.find?_cons, hrest]
  cases r.covers n <;> rfl

lemma titleChar_of_isPlain {c : Char} (h : IsPlain c) : titleChar c = [c.toUpper] := by
  have hsequences : ∀ e ∈ titleSequences, 128 ≤ e.1 := by decide +kernel
  have hlookup : titleSequences.lookup c.toNat = none := by
    refine List.lookup_eq_none_iff.2 fun e he => ?_
    have hne : c.toNat ≠ e.1 := Nat.ne_of_lt (Nat.lt_of_lt_of_le h.1 (hsequences e he))
    simpa using hne
  have hruns : ∀ s ∈ titleRuns.tail, 128 ≤ s.start := by decide +kernel
  have hfind : titleRuns.find? (·.covers c.toNat) =
      if (⟨0x61, 0x7A, 1, -32⟩ : CaseRun).covers c.toNat = true
      then some ⟨0x61, 0x7A, 1, -32⟩ else none := find?_covers_of_lt hruns h.1
  have hc : if (⟨0x61, 0x7A, 1, -32⟩ : CaseRun).covers c.toNat = true
      then Char.ofNat (c.toNat + (-32 : Int)).toNat = c.toUpper else c = c.toUpper := by
    refine of_isPlain h ?_
    decide +kernel
  rw [titleChar, hlookup]
  dsimp only
  rw [hfind]
  split at hc
  · rename_i hcovers
    rw [if_pos hcovers]
    exact congrArg (fun d => [d]) hc
  · rename_i hcovers
    rw [if_neg hcovers]
    exact congrArg (fun d => [d]) hc

lemma lowerChar_of_isPlain {c : Char} (h : IsPlain c) : lowerChar c = [c] := by
  have hruns : ∀ s ∈ caseRuns.tail, 128 ≤ s.start := by decide +kernel
  have hfirst : ¬(⟨0x41, 0x5A, 1, 32⟩ : CaseRun).covers c.toNat = true := by
    refine of_isPlain h ?_
    decide +kernel
  have hfind : caseRuns.find? (·.covers c.toNat) = none :=
    (find?_covers_of_lt hruns h.1).trans (if_neg hfirst)
  have hne : ¬(c.toNat == 0x130) = true := by
    rw [beq_iff_eq]
    exact Nat.ne_of_lt (Nat.lt_trans h.1 (by decide))
  rw [lowerChar, if_neg hne, hfind]

lemma lowerAfter_of_isPlain {cs : List Char} (h : ∀ c ∈ cs, IsPlain c) (before : List Char) :
    lowerAfter before cs = cs := by
  induction cs generalizing before with
  | nil => rfl
  | cons c cs ih =>
    obtain ⟨hc, hcs⟩ := List.forall_mem_cons.1 h
    have hsigma : isCapitalSigma c = false := by
      rw [isCapitalSigma, beq_eq_false_iff_ne]
      exact Nat.ne_of_lt (Nat.lt_trans hc.1 (by decide))
    simp only [lowerAfter, hsigma, lowerChar_of_isPlain hc, ih hcs]
    rfl

lemma capitalize_of_isPlain {c : Char} {cs : List Char} (h : ∀ d ∈ c :: cs, IsPlain d) :
    capitalize (c :: cs) = c.toUpper :: cs := by
  obtain ⟨hc, hcs⟩ := List.forall_mem_cons.1 h
  rw [capitalize, titleChar_of_isPlain hc, lowerAfter_of_isPlain hcs]
  rfl

/-! ## From names to symbols -/

/-- A character of a name as it stands in a symbol, where a capital begins a word. -/
def uncapitalized (c : Char) : List Char := if c.isUpper then ['_', c.toLower] else [c]

/-- Where it is a letter that a word begins with, the word can be read off its capitalized form. -/
lemma uncapitalized_of_isPlain {c : Char} (h : IsPlain c) :
    uncapitalized c = [c] ∧ (c.toUpper.isAlpha = true → uncapitalized c.toUpper = ['_', c]) := by
  refine of_isPlain h ?_
  decide +kernel

lemma flatMap_uncapitalized_of_isPlain {cs : List Char} (h : ∀ c ∈ cs, IsPlain c) :
    cs.flatMap uncapitalized = cs := by
  induction cs with
  | nil => rfl
  | cons c cs ih =>
    obtain ⟨hc, hcs⟩ := List.forall_mem_cons.1 h
    rw [List.flatMap_cons, (uncapitalized_of_isPlain hc).1, ih hcs]
    rfl

/-- A word can be read off its capitalized form. -/
lemma flatMap_uncapitalized_capitalize {word : List Char} (hne : word ≠ [])
    (h : ∀ c ∈ word, IsPlain c) (hletters : ∀ c ∈ capitalize word, c.isAlpha = true) :
    (capitalize word).flatMap uncapitalized = '_' :: word := by
  cases word with
  | nil => exact absurd rfl hne
  | cons c cs =>
    obtain ⟨hc, hcs⟩ := List.forall_mem_cons.1 h
    rw [capitalize_of_isPlain h] at hletters ⊢
    rw [List.flatMap_cons, flatMap_uncapitalized_of_isPlain hcs,
      (uncapitalized_of_isPlain hc).2 (hletters _ List.mem_cons_self)]
    rfl

/-- Words with a separator in front of each are what stands between separators, after one. -/
lemma flatMap_cons_eq_intercalate {α : Type} (a : α) {words : List (List α)} (h : words ≠ []) :
    words.flatMap (a :: ·) = a :: [a].intercalate words := by
  induction words with
  | nil => exact absurd rfl h
  | cons word words ih =>
    cases words with
    | nil => simp [List.intercalate]
    | cons word' words =>
      rw [List.flatMap_cons, ih (List.cons_ne_nil _ _), List.intercalate_cons_cons]
      simp

/-- The symbol that a name is spelled by. -/
def symbolOf (name : String) : String := String.ofList (name.toList.flatMap uncapitalized).tail

/-- A symbol that a grammar can have can be read off the name that it spells, if that consists of
letters. -/
lemma symbol_of_name {symbol : String} (h : IsGrammatical symbol) (herror : symbol ≠ "ERROR")
    (hletters : ∀ c ∈ (kindOfSymbol symbol).name.toList, c.isAlpha = true) :
    symbol = symbolOf (kindOfSymbol symbol).name := by
  obtain ⟨-, hwords⟩ := h.resolve_left herror
  rw [kindOfSymbol, Kind.name_ofName, String.toList_ofList] at hletters
  rw [symbolOf, kindOfSymbol, Kind.name_ofName, String.toList_ofList, List.flatMap_assoc]
  have hread : (symbol.toList.splitOn '_').flatMap
      (fun word => (capitalize word).flatMap uncapitalized) =
      (symbol.toList.splitOn '_').flatMap ('_' :: ·) :=
    List.flatMap_congr fun word hword => flatMap_uncapitalized_capitalize (hwords word hword).1
      (hwords word hword).2 fun c hc => hletters c (List.mem_flatMap.2 ⟨word, hword, hc⟩)
  rw [hread, flatMap_cons_eq_intercalate '_' (List.splitOn_ne_nil '_' _), List.intercalate_splitOn,
    List.tail_cons, String.ofList_toList]

/-- A symbol that a grammar can have and that comes without a rule spells no kind whose parts are
asked for without a further look. -/
lemma kindOfSymbol_of_grammatical {i : Input} {symbol : String} (h : IsGrammatical symbol)
    (hrule : (rules i).lookup symbol = none) : kindOfSymbol symbol ∉ Kind.unguarded := by
  intro hkind
  by_cases herror : symbol = "ERROR"
  · subst herror
    have hother : kindOfSymbol "ERROR" ∉ Kind.unguarded := by decide +kernel
    exact hother hkind
  have hletters : ∀ kind ∈ Kind.unguarded, kind.name.toList.all Char.isAlpha = true := by
    decide +kernel
  have hsymbol := symbol_of_name h herror (List.all_eq_true.1 (hletters _ hkind))
  -- Each of these kinds is spelled by a symbol with a rule, or by one that no grammar has.
  have hsymbols : ∀ kind ∈ Kind.unguarded, symbolOf kind.name ∈ abstractNames ∨
      symbolOf kind.name ∈ ["call_expression", "spread_element"] := by
    decide +kernel
  rcases hsymbols _ hkind with hname | hname <;> rw [← hsymbol] at hname
  · exact (h.resolve_left herror).1 hname
  · rcases List.mem_pair.1 hname with rfl | rfl <;> cases hrule

end RefFlow.Convert
