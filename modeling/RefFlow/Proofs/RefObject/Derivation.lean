import RefFlow.Proofs.Digraph.Minimal
import RefFlow.Proofs.RefObject.Records

/-!
# Where a record comes from

A record names the site whose object its node refers to, and the derivation shows how the object
came there.  Several sites can reach one node, and identifiers are followed for the first of them
only, so it has to be shown that the derivation leads to the node from the site that the record
names and not merely from some site.  The walk keeps this up with every record that it makes
(`Sound.record`).

`chain_isFlow` puts it together with the path search: the search never fails for a record, and the
chain that it gives goes from the creating call to the node by steps of the flow (`FlowStep`).  Of
all ways that the derivation has from the call to the node, the chain is a shortest one
(`chain_isShortest`).
-/

namespace RefFlow.RefObject

open Fallible

variable {p : Program} {f : Findings}

/-- A path of the derivation that starts at a node of the program goes through nodes of the program,
from each to the next by a step of the flow. -/
lemma Sound.exists_nodes (h : Sound p f) {x : Node} (hx : p.Has x) {path : List Nat}
    (hpath : (x.id :: path).IsChain f.derivation.Edge) :
    ∃ nodes : List Node, nodes.map Node.id = path ∧ (∀ y ∈ nodes, p.Has y) ∧
      (x :: nodes).IsChain (FlowStep p) := by
  induction path generalizing x with
  | nil => exact ⟨[], rfl, by simp, .singleton x⟩
  | cons k path ih =>
    obtain ⟨hedge, hrest⟩ := List.isChain_cons_cons.1 hpath
    obtain ⟨x', y, hx', hy, hid, rfl, hstep⟩ := h.edge _ _ hedge
    obtain rfl := hx'.eq_of_id_eq hx hid
    obtain ⟨nodes, rfl, hall, hnodes⟩ := ih hy hrest
    exact ⟨y :: nodes, rfl, List.forall_mem_cons.2 ⟨hy, hall⟩, .cons_cons hstep hnodes⟩

/-- A path of the derivation between two nodes of the program is a way of the flow. -/
lemma Sound.exists_way (h : Sound p f) {x y : Node} (hx : p.Has x) (hy : p.Has y) {path : List Nat}
    (hpath : f.derivation.IsPath x.id y.id path) :
    ∃ nodes : List Node, nodes.map Node.id = path ∧ nodes.head? = some x ∧
      nodes.getLast? = some y ∧ nodes.IsChain (FlowStep p) := by
  obtain ⟨rest, rfl⟩ := List.head?_eq_some_iff.1 hpath.head
  obtain ⟨nodes, rfl, hall, hchain⟩ := h.exists_nodes hx hpath.chain
  refine ⟨x :: nodes, rfl, rfl, ?_, hchain⟩
  -- The last node is the one with the last number.
  have hlast := hpath.last
  rw [← List.map_cons, List.getLast?_map, Option.map_eq_some_iff] at hlast
  obtain ⟨z, hz, hid⟩ := hlast
  have hzhas : p.Has z := by
    rcases List.mem_cons.1 (List.mem_of_getLast? hz) with rfl | hmem
    · exact hx
    · exact hall z hmem
  rw [hz, hzhas.eq_of_id_eq hy hid]

/-- **Every record is derived from its site.**  If all references to ref objects can be extracted
from a program, the site of a record is one of those that the scan finds, and the method of the
record is that of the site.  The derivation leads from the creating call to the node of the record,
so the chain of the node is what the path search finds: it starts at the call, ends at the node, and
goes from each node to the next along an edge of the derivation and by a step of the flow. -/
theorem chain_isFlow (h : extract p = .ok f) {k : Nat} {r : Record} (hr : f.get? k = some r) :
    IsSite p r.site ∧ r.method = r.site.method ∧ r.node.id = k ∧ f.Leads r.site.node.id r.node.id ∧
      f.derivation.shortestPath r.site.node.id r.node.id = some (f.chain k) ∧
      f.derivation.IsPath r.site.node.id r.node.id (f.chain k) ∧
      ∃ nodes : List Node, nodes.map Node.id = f.chain k ∧ nodes.head? = some r.site.node ∧
        nodes.getLast? = some r.node ∧ nodes.IsChain (FlowStep p) := by
  obtain ⟨hsound, -, -⟩ := extract_settled h
  obtain ⟨rfl, hsite, hrecorded, hleads⟩ := hsound.record k r hr
  obtain ⟨path, hsearch⟩ := Digraph.exists_shortestPath hleads
  have hchain : f.chain r.node.id = path := by simp [Findings.chain, hr, hsearch]
  have hpath := Digraph.isPath_of_shortestPath hsearch
  rw [hchain]
  exact ⟨hsite, hsound.method _ r hr, rfl, hleads, hsearch, hpath,
    hsound.exists_way hsite.has (hrecorded.has hsite.has) hpath⟩

/-- In the circle the object comes from the call to the assigned `a` by way of the declared one. -/
theorem chain_circle : ∃ p f r, circle = .ok p ∧ extract p = .ok f ∧ f.get? 16 = some r ∧
    f.chain 16 = [9, 8, 16] ∧ IsSite p r.site ∧
    ∃ nodes : List Node, nodes.map Node.id = [9, 8, 16] ∧ nodes.head? = some r.site.node ∧
      nodes.getLast? = some r.node ∧ nodes.IsChain (FlowStep p) := by
  have hall : circle.toOption.any fun p => (extract p).toOption.any fun f =>
      (f.get? 16).isSome && f.chain 16 == [9, 8, 16] := by decide +kernel
  obtain ⟨p, hp, hall⟩ := exists_ok_of_any hall
  obtain ⟨f, hf, hall⟩ := exists_ok_of_any hall
  obtain ⟨hsome, hchain⟩ := Bool.and_eq_true_iff.1 hall
  obtain ⟨r, hr⟩ := Option.isSome_iff_exists.1 hsome
  obtain ⟨hsite, -, -, -, -, -, hway⟩ := chain_isFlow hf hr
  rw [beq_iff_eq.1 hchain] at hway
  exact ⟨p, f, r, hp, hf, hr, beq_iff_eq.1 hchain, hsite, hway⟩

/-! ## Shortest derivations -/

/-- The chain of a record is what the path search finds. -/
lemma shortestPath_chain (h : extract p = .ok f) {k : Nat} {r : Record} (hr : f.get? k = some r) :
    f.derivation.shortestPath r.site.node.id k = some (f.chain k) := by
  obtain ⟨hsound, -, -⟩ := extract_settled h
  obtain ⟨rfl, -, -, hleads⟩ := hsound.record k r hr
  obtain ⟨path, hsearch⟩ := Digraph.exists_shortestPath hleads
  simp [Findings.chain, hr, hsearch]

/-- **The chain of a record is a shortest derivation.**  If all references to ref objects can be
extracted from a program, the chain of a node with a record is a path of the derivation from the
call that the record names to the node.  It visits no node twice, and no other path from the call to
the node has fewer nodes. -/
theorem chain_isShortest (h : extract p = .ok f) {k : Nat} {r : Record} (hr : f.get? k = some r) :
    f.derivation.IsPath r.site.node.id k (f.chain k) ∧ (f.chain k).Nodup ∧
      ∀ path, f.derivation.IsPath r.site.node.id k path →
        (f.chain k).length ≤ path.length := by
  have hsearch := shortestPath_chain h hr
  exact ⟨Digraph.isPath_of_shortestPath hsearch, Digraph.nodup_of_shortestPath hsearch,
    fun path hpath => Digraph.length_le_of_shortestPath hsearch hpath⟩

/-- The text `import {ref} from 'vue';let a=ref(),b=a,c=b;c=a;c`, in which the object comes to the
last `c` by way of `b` and also without it. -/
def shortcutSource : Source := ⟨"import {ref} from 'vue';let a=ref(),b=a,c=b;c=a;c".toUTF8.toList⟩

/-- The concrete tree of the text. -/
def shortcutTree : Concrete Unit :=
  let name (role : Option String) (start : Nat) :=
    Concrete.identifier role start (start + 1)
  .node "program" none 0 49
    [.node "import_statement" none 0 24
      [.node "import_clause" none 7 12
        [.node "named_imports" none 7 12
          [.node "import_specifier" none 8 11 [.identifier (some "name") 8 11]]],
       .node "string" (some "source") 18 23 []],
     .node "lexical_declaration" none 24 44
      [.token "let" (some "kind") 24 27,
       .node "variable_declarator" none 28 35
        [name (some "name") 28,
         .node "call_expression" (some "value") 30 35
          [.identifier (some "function") 30 33,
           .node "arguments" (some "arguments") 33 35 []]],
       .node "variable_declarator" none 36 39 [name (some "name") 36, name (some "value") 38],
       .node "variable_declarator" none 40 43 [name (some "name") 40, name (some "value") 42]],
     .node "expression_statement" none 44 48
      [.node "assignment_expression" none 44 47 [name (some "left") 44, name (some "right") 46]],
     .node "expression_statement" none 48 49 [name none 48]]

/-- The analysed program. -/
def shortcut : Except Fault Program := Program.analyze shortcutSource {} shortcutTree

/-- The object comes to the last `c` of the text by seven nodes and by five, and no way has fewer
than five. -/
theorem chain_shortcut : ∃ p f r, shortcut = .ok p ∧ extract p = .ok f ∧ f.get? 22 = some r ∧
    r.site.node.id = 9 ∧ f.chain 22 = [9, 8, 20, 19, 22] ∧
    f.derivation.IsPath 9 22 [9, 8, 13, 12, 16, 15, 22] ∧
    ∀ path, f.derivation.IsPath 9 22 path → 5 ≤ path.length := by
  have hall : shortcut.toOption.any fun p => (extract p).toOption.any fun f =>
      (f.get? 22).any (·.site.node.id == 9) && f.chain 22 == [9, 8, 20, 19, 22] &&
        [(9, 8), (8, 13), (13, 12), (12, 16), (16, 15), (15, 22)].all
          (f.derivation.edges.contains ·) := by decide +kernel
  obtain ⟨p, hp, hall⟩ := exists_ok_of_any hall
  obtain ⟨f, hf, hall⟩ := exists_ok_of_any hall
  obtain ⟨hall, hedges⟩ := Bool.and_eq_true_iff.1 hall
  obtain ⟨hsite, hchain⟩ := Bool.and_eq_true_iff.1 hall
  obtain ⟨r, hr, hid⟩ := (Option.any_eq_true _ _).1 hsite
  have hid : r.site.node.id = 9 := beq_iff_eq.1 hid
  have hchain : f.chain 22 = [9, 8, 20, 19, 22] := beq_iff_eq.1 hchain
  obtain ⟨-, -, hshort⟩ := chain_isShortest hf hr
  rw [hid, hchain] at hshort
  refine ⟨p, f, r, hp, hf, hr, hid, hchain, ⟨?_, rfl, rfl⟩, hshort⟩
  simpa [Digraph.Edge] using hedges

end RefFlow.RefObject
