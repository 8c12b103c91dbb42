import AbiSpan.Interface.Reader
import AbiSpan.Proofs.Session.CallMemo

/-!
Two functions of one selector.

The trees that a session keeps for calls are kept under selectors. If the called contract declares
two functions of one selector and different types, the one that is asked for first decides where
the arguments of the other are looked for: an argument that would be found may not be, since the
kept row of nodes is too short for it. Four bytes are few, and such functions are known.
-/

namespace AbiSpan

/-- The verdict of a plan for one part is how the part was picked. -/
lemma Plan.verdict_single {Part Located : Type} (pick : Part → Picking Located Span) (part : Part)
    (state : PickState Located) : (((Plan.single part).run pick).run state).1.verdict =
      (outcome (pick part) state).1.map fun _ => () := by
  rw [Plan.single, Plan.inOrder, Plan.run_pick]
  rcases outcome (pick part) state with ⟨fault | span, state'⟩ <;> rfl

namespace Session

variable {s : Session} {query name : String} {f : Function} {n : Node}

/-- A query that comes to a function with call data runs its plan. -/
lemma Calls.runs (h : s.Calls query f) (hn : s.record.field? .data = some n)
    (configure : Function → Plan CallPart) :
    Always (Query.resolveFunction query configure) s fun r s' =>
      s.RunsCall query configure f n s' ∧
        s.EndsAs ((s.record.callScope f n).run (configure f) s.callTrees).1 r s' := by
  refine (Query.always_resolveFunction query configure).mono fun r s' hpost => ?_
  rcases hpost with ⟨fault, -, -, hnone⟩ | ⟨f', n', hruns, hends⟩
  · rw [hnone f h] at hn
    cases hn
  · obtain rfl : f' = f := Except.ok.inj (hruns.calls.symm.trans h)
    obtain rfl : n' = n := Option.some.inj (hruns.node.symm.trans hn)
    exact ⟨hruns, hends⟩

lemma Calls.runs_argument (h : s.Calls query f) (hn : s.record.field? .data = some n)
    (name : String) : s.RunsCall query (fun _ => .single (.argument name)) f n
      (s.performAll [.functionArgument query name]) :=
  (h.runs hn _).1

/-- A query for one argument succeeds just where the argument is picked. -/
lemma Calls.argument_ok_iff (name : String) (h : s.Calls query f)
    (hn : s.record.field? .data = some n) :
    (s.perform (.functionArgument query name)).1 = .ok () ↔
      ∃ span, (s.record.callScope f n).Picks s.callTrees (.argument name) span := by
  obtain ⟨-, hverdict, -⟩ := h.runs hn fun _ => .single (.argument name)
  have hpick : Always ((s.record.callScope f n).pick (.argument name)) { located := s.callTrees }
      fun r _ => ∀ span, r = .ok span ↔
        (s.record.callScope f n).Picks s.callTrees (.argument name) span :=
    (CallScope.always_pick (.argument name)).2
  unfold Always at hpick
  show (outcome (Query.resolveFunction query fun _ => .single (.argument name)) s).1 = _ ↔ _
  rw [← hverdict, CallScope.run, Plan.verdict_single]
  simp only [← hpick]
  rcases (outcome _ _).1 with fault | span <;> simp [Except.map]

/-- What is kept for calls is visible, if an argument is not found where it says and would be found
if nothing were kept. -/
theorem not_hidesTrees (h : s.Calls query f) (hn : s.record.field? .data = some n)
    (hlost : ∀ span, ¬ (s.record.callScope f n).Picks s.callTrees (.argument name) span)
    (hfound : ∃ span, (s.record.callScope f n).Picks [] (.argument name) span) :
    ¬ s.HidesTrees (.functionArgument query name) := by
  intro hides
  have hcalls : s.forgetful.Calls query f := by
    rw [Calls, calledFunction_forgetful]
    exact h
  have hok := (hcalls.argument_ok_iff name hn).mpr hfound
  obtain ⟨span, hspan⟩ := (h.argument_ok_iff name hn).mp (hides.1.trans hok)
  exact hlost span hspan

/-- An argument is not found where the row that is kept is too short. -/
lemma not_picks_of_short {record : Record} {kept : CallScope.Located} {nodes : List Node} {k : ℕ}
    (hkept : kept.lookup f.selector = some nodes) (hname : f.FirstNamed name k)
    (hshort : nodes.length ≤ k) (span : Span) :
    ¬ (record.callScope f n).Picks kept (.argument name) span := by
  rintro ⟨k', nodes', m, inner, hname', hknows, hm, -⟩
  obtain rfl := hname.unique hname'
  rcases hknows with hkept' | ⟨hnone, -⟩
  · cases hkept.symm.trans hkept'
    rw [List.getElem?_eq_none hshort] at hm
    cases hm
  · cases hkept.symm.trans hnone

end Session

/-- A document is read by its items, which stay in order where that is the order of their names. -/
lemma Interface.Reader.ofJson?_eq_some {docs : List Json} {items : List Item}
    (hsound : docs.all (Json.sound (Json.maxDepth - 1)) = true)
    (hitems : docs.mapM item? = some items)
    (hcounts : items.count .constructor ≤ 1 ∧ items.count .fallback ≤ 1 ∧ items.count .receive ≤ 1)
    (hevents : (items.filterMap eventOf?).Pairwise fun a b => decide (a.name ≤ b.name) = true)
    (hfunctions : (items.filterMap functionOf?).Pairwise fun a b =>
      decide (a.name ≤ b.name) = true) :
    ofJson? (.array docs) = some ⟨items.filterMap eventOf?, items.filterMap functionOf?⟩ := by
  have harray : (Json.array docs).array? = some docs := rfl
  simp only [ofJson?, harray, hsound, hitems, not_true_eq_false, if_false, Option.bind_eq_bind,
    Option.bind_some, if_pos hcounts, List.mergeSort_of_pairwise hevents,
    List.mergeSort_of_pairwise hfunctions]

/-! ### A contract with such functions -/

/-- The contract that is called. -/
def clashAddress : Address := ⟨List.replicate 20 6, rfl⟩

/-- A transaction that calls `transferFrom(address,address,uint256)`, whose selector is also that of
`gasprice_bit_ether(int128)`. -/
def transfer : Transaction where
  kind := .legacy
  destination := some clashAddress
  input := [35, 184, 114, 221] ++ Bytes.ofNat 32 1 ++ Bytes.ofNat 32 2 ++ Bytes.ofNat 32 9

/-- Its record: fifteen words, of which three point to the call data, no logs and no blooms. -/
def transferRecord : Bytes :=
  [0, 0, 0, 0, 0, 0, 0, 480, 0, 0, 0, 1, 0, 640, 672].flatMap (Bytes.ofNat 32) ++
    (Bytes.ofNat 32 100 ++ transfer.input ++ List.replicate 28 0) ++ Bytes.ofNat 32 0 ++
    Bytes.ofNat 32 0

/-- The session that is opened over the record. -/
@[irreducible] def transferOpened : Session :=
  (Session.ofEncoded transfer { logs := [] } transferRecord {}).toOption.get (by decide +kernel)

/-- The function of the shorter call data, of which the argument is asked for first. -/
def gasprice : Function where
  name := "gasprice_bit_ether"
  inputs := [⟨"x", "int128", false, []⟩]

def transferFrom : Function where
  name := "transferFrom"
  inputs := [⟨"from", "address", false, []⟩, ⟨"to", "address", false, []⟩,
    ⟨"value", "uint256", false, []⟩]

def clash : Interface where
  events := []
  functions := [gasprice, transferFrom]

/-- The interface as a document. -/
def clashDocs : List Json :=
  [.object [("type", .string "function"), ("name", .string "gasprice_bit_ether"),
      ("inputs", .array [.object [("name", .string "x"), ("type", .string "int128")]]),
      ("outputs", .array [])],
    .object [("type", .string "function"), ("name", .string "transferFrom"),
      ("inputs", .array [.object [("name", .string "from"), ("type", .string "address")],
        .object [("name", .string "to"), ("type", .string "address")],
        .object [("name", .string "value"), ("type", .string "uint256")]]),
      ("outputs", .array [])]]

def clashText : String := (Json.array clashDocs).render

lemma interface?_clashText : Library.standard.interface? clashText = some clash := by
  have hwritable : Json.Writable .any (.array clashDocs) := by
    simp [clashDocs, Json.Writable, Json.WritableItems, Json.WritablePairs, Json.Shape.ofPlace,
      Json.Shape.ofKey]
  have hitems : clashDocs.mapM Interface.Reader.item? =
      some [.function gasprice, .function transferFrom] := by with_unfolding_all rfl
  rw [clashText, Library.interface?_render hwritable]
  exact Interface.Reader.ofJson?_eq_some (by decide) hitems (by decide) (by decide) (by decide)

/-- The selector that it is called with. -/
def clashSelector : Selector := ⟨[35, 184, 114, 221], rfl⟩

/-- The selectors are the same. -/
lemma selector_clash :
    gasprice.selector = clashSelector ∧ transferFrom.selector = clashSelector := by
  decide +kernel

/-- The session once it has a source. -/
def clashSourced : Session := transferOpened.performAll [.setSource (.table [] (some clashText))]

/-- The session once it has been asked for a function that there is not. -/
def clashKnown : Session := clashSourced.performAll [.functionArgument "transfer" "value"]

/-- The session once the argument of the other function has been asked for. -/
def clashSession : Session := clashKnown.performAll [.functionArgument "gasprice_bit_ether" "x"]

lemma ofEncoded_transferRecord :
    Session.ofEncoded transfer { logs := [] } transferRecord {} = .ok transferOpened := by
  unfold transferOpened
  exact eq_ok_of_toOption (Option.some_get _).symm

lemma callTarget_transferOpened :
    Query.callTarget transferOpened.record.tx = .ok (clashAddress, clashSelector) := by
  obtain ⟨htx, -⟩ := Session.record_of_ofEncoded ofEncoded_transferRecord
  rw [htx]
  rfl

lemma clashKnown_eq : clashKnown = clashSourced.taught clashAddress clash := by
  have hnone : clash.functions.filter (fun f =>
      (ItemKey.name "transfer").names f.selector.bytes f.signature f.name) = [] :=
    List.isEmpty_iff.mp (by decide +kernel)
  have hfault : clash.function (.name "transfer") "transfer" clashAddress =
      .error (.functionNotFound "transfer" clashAddress.checksummed) := by
    rw [Interface.function, hnone]
  have htarget : Query.callTarget transfer = .ok (clashAddress, clashSelector) := rfl
  exact Session.performAll_eq_taught_of_ofEncoded "value" ofEncoded_transferRecord htarget
    interface?_clashText (eq_ok_of_toOption (by decide +kernel)) hfault

/-- The call data in the record. -/
def transferNode : Node := (transferOpened.record.field? .data).get (by decide +kernel)

lemma field?_transferOpened : transferOpened.record.field? .data = some transferNode :=
  (Option.some_get _).symm

/-- Their names tell the functions apart. -/
lemma clash_namesOnly : clash.NamesOnly "gasprice_bit_ether" gasprice ∧
    clash.NamesOnly "transferFrom" transferFrom :=
  ⟨⟨.name "gasprice_bit_ether", eq_ok_of_toOption (by decide +kernel), rfl⟩,
    ⟨.name "transferFrom", eq_ok_of_toOption (by decide +kernel), rfl⟩⟩

lemma clashKnown_calls : clashKnown.Calls "gasprice_bit_ether" gasprice := by
  rw [clashKnown_eq]
  exact Session.calls_of_known rfl callTarget_transferOpened List.lookup_cons_self
    clash_namesOnly.1 selector_clash.1

lemma clashSession_runs : clashKnown.RunsCall "gasprice_bit_ether"
    (fun _ => .single (.argument "x")) gasprice transferNode clashSession := by
  have hfield : clashKnown.record.field? .data = some transferNode := by
    rw [clashKnown_eq]
    exact field?_transferOpened
  exact clashKnown_calls.runs_argument hfield "x"

/-- The row that is kept has the one node of the other function. -/
lemma clashSession_keeps : ∃ nodes, nodes.length = 1 ∧
    clashSession.callTrees.lookup clashSelector = some nodes := by
  have hnone : clashSourced.callTrees = [] := List.isEmpty_iff.mp (by decide +kernel)
  have hlengths : ((clashSourced.record.callScope gasprice transferNode).run
      (.single (.argument "x")) clashSourced.callTrees).2.located.map (·.2.length) = [1] := by
    decide +kernel
  have htrees : clashSession.callTrees = ((clashSourced.record.callScope gasprice transferNode).run
      (.single (.argument "x")) clashSourced.callTrees).2.located := by
    rw [clashSession_runs.callTrees_eq, clashKnown_eq, Session.taught_record,
      Session.taught_callTrees]
  have hfills := CallScope.fills_run (s := clashSourced.record.callScope gasprice transferNode)
    (.single (.argument "x")) clashSourced.callTrees
  rcases hfills with hsame | ⟨nodes, -, -, hadded⟩
  · rw [hsame, hnone] at hlengths
    cases hlengths
  · rw [hadded, hnone] at hlengths
    refine ⟨nodes, (List.cons.inj hlengths).1, ?_⟩
    rw [htrees, hadded, Record.callScope, selector_clash.1]
    exact List.lookup_cons_self

/-- The third argument of the transfer is not found in the row of one node that is kept, and it
would be found if nothing were kept. -/
theorem clashSession_shows_trees : clashSession.Reachable ∧
    ¬ clashSession.HidesTrees (.functionArgument "transferFrom" "value") := by
  have hopened := Session.reachable_of_ofEncoded ofEncoded_transferRecord
  have hreachable : clashSession.Reachable :=
    ((hopened.performAll _).performAll _).performAll _
  obtain ⟨nodes, hlength, hkept⟩ := clashSession_keeps
  have hrecord : clashSession.record = transferOpened.record := by
    rw [clashSession_runs.record_eq, clashKnown_eq]
    rfl
  have hsource : clashSession.source.isSome = true := by
    rw [clashSession_runs.source_eq, clashKnown_eq]
    rfl
  have hknown : clashSession.interfaces.lookup clashAddress = some clash := by
    refine clashSession_runs.interfaces.lookup _ _ ?_
    rw [clashKnown_eq]
    exact List.lookup_cons_self
  have htarget : Query.callTarget clashSession.record.tx = .ok (clashAddress, clashSelector) := by
    rw [hrecord]
    exact callTarget_transferOpened
  have hcalls : clashSession.Calls "transferFrom" transferFrom :=
    Session.calls_of_known hsource htarget hknown clash_namesOnly.2 selector_clash.2
  have hname : transferFrom.FirstNamed "value" 2 :=
    Function.findIdx?_eq_some_iff.mp (by decide +kernel)
  have hfound : ∃ span, (transferOpened.record.callScope transferFrom transferNode).Picks []
      (.argument "value") span := by
    have hpicked : (outcome ((transferOpened.record.callScope transferFrom transferNode).pick
        (.argument "value")) { located := [] }).1.toOption.isSome = true := by decide +kernel
    obtain ⟨span, hspan⟩ := Option.isSome_iff_exists.mp hpicked
    exact ⟨span, ((CallScope.always_pick _).2 span).mp (eq_ok_of_toOption hspan)⟩
  refine ⟨hreachable, Session.not_hidesTrees hcalls (n := transferNode) ?_ ?_ ?_⟩
  · rw [hrecord]
    exact field?_transferOpened
  · refine Session.not_picks_of_short (?_ : _ = some nodes) hname (by omega)
    rw [selector_clash.2, hkept]
  · rw [hrecord]
    exact hfound

end AbiSpan
