import EquationExport.Omml.Repair.Rule
import EquationExport.Proofs.Omml.Bar
import EquationExport.Proofs.Omml.Base
import EquationExport.Proofs.Omml.Sweep

/-!
# What lasts under repair

A property of single nodes lasts if it does not depend on the children of a node, if the elements that repairs
build have it, and if it survives the values and texts that repairs set. These values and texts consist of a few
code points that the repairs write themselves and of code points that stood in the fragment before. What every
node of a fragment has then, every node has after any repairs. One repair builds fractions, and it is set apart.
-/

namespace EquationExport.Omml

open Xml Xml.Node Repair

/-! ### Properties that last -/

/-- The names of the elements that repairs build, apart from those of fractions. -/
def builtNames : List Text :=
  Text.ofStrings ["r", "nary", "naryPr", "chr", "limLoc", "subHide", "supHide", "sub", "sup", "e", "d", "dPr", "begChr",
    "endChr", "sSub", "sSubSup"]

/-- The names of the elements of fractions. -/
def fractionNames : List Text := Text.ofStrings ["f", "num", "den"]

/-- The code points that repairs write of themselves. -/
def ownPoints : Text := "∞undOvr()[]\x7b\x7d⟨⟩〈〉|‖0123456789"

/-- The property holds of what repairs build, and goes from a node to what they make of it. -/
structure Lasting (R : CodePoint → Prop) (P : Node → Prop) : Prop where
  isLocal : Local P
  own : ∀ c ∈ ownPoints, R c
  built : ∀ name ∈ builtNames, P (mathElement name [])
  textElement : ∀ text : Text, (∀ c ∈ text, R c) → P (textElement text)
  setValue : ∀ (value : Text) node, (∀ c ∈ value, R c) → P node → P (node.setAttribute valueName value)
  normalized : ∀ node, P node → P (normalizeTextElement node)
  text : ∀ node, P node → ∀ c ∈ node.text?.getD [], R c

/-- If foreign elements are stripped at all, that is the first repair. -/
theorem RepairRule.filter_all {keep : RepairRule → Bool} (h : keep .stripForeign = true) :
    RepairRule.all.filter keep = .stripForeign :: (RepairRule.all.drop 1).filter keep :=
  List.filter_cons_of_pos h

variable {R : CodePoint → Prop} {P : Node → Prop} {node : Node} {l : List Node} {name : Text}

namespace Lasting

/-! ### Texts of runs -/

/-- A text of the repairs themselves. -/
theorem ofOwn (h : Lasting R P) {t : Text} (ht : ∀ c ∈ t, c ∈ ownPoints) : ∀ c ∈ t, R c := fun c hc => h.own c (ht c hc)

theorem runText (h : Lasting R P) (hnode : Everywhere P [node]) : ∀ c ∈ node.runText?.getD [], R c := by
  intro c hc
  unfold runText? at hc
  split at hc
  · rw [Option.getD_some] at hc
    obtain ⟨t, ht, hc⟩ := List.mem_flatMap.1 hc
    exact h.text t (hnode t (by simpa using (List.mem_filter.1 ht).1)) c hc
  · cases hc

theorem glyphs (h : Lasting R P) (hnode : Everywhere P [node]) : ∀ c ∈ node.glyphs, R c :=
  fun c hc => h.runText hnode c ((Text.trim_isInfix _).subset hc)

theorem closing (h : Lasting R P) {opening close : Text} (hpair : closing? opening = some close) : ∀ c ∈ close, R c := by
  obtain ⟨pair, hfind, rfl⟩ := Option.map_eq_some_iff.1 hpair
  have hall : ∀ pair ∈ delimiterPairs, pair.2 ∈ ownPoints := by decide
  intro c hc
  rw [List.mem_singleton.1 hc]
  exact h.own _ (hall pair (List.mem_of_find?_eq_some hfind))

theorem plainDigit (h : Lasting R P) {c : CodePoint} (hc : R c) : R (Repair.plainDigit c) := by
  unfold Repair.plainDigit
  split
  · next hsub =>
    refine h.own _ ?_
    have hall : ∀ n < 10, CodePoint.ofNat (n + 0x30) ∈ ownPoints := by decide
    simp only [CodePoint.inRange, Bool.and_eq_true, decide_eq_true_eq] at hsub
    exact hall (c.val - 0x2080) (by omega)
  · exact hc

/-! ### Constructs -/

theorem mathElement (h : Lasting R P) (hname : name ∈ builtNames) (hl : Everywhere P l) :
    Everywhere P [Omml.mathElement name l] :=
  everywhere_singleton.2 ⟨h.isLocal _ _ [] l _ (h.built name hname), hl⟩

theorem run (h : Lasting R P) {text : Text} {properties : Option Node} (htext : ∀ c ∈ text, R c)
    (hproperties : Everywhere P properties.toList) : Everywhere P [Omml.run text properties] := by
  rw [run_eq]
  refine h.mathElement (by decide) (everywhere_append.2 ⟨hproperties, ?_⟩)
  exact everywhere_singleton.2 ⟨h.textElement text htext, everywhere_nil⟩

theorem setProperty (h : Lasting R P) {group key value : Text} (hgroup : group ∈ builtNames) (hkey : key ∈ builtNames)
    (hvalue : ∀ c ∈ value, R c) (hnode : Everywhere P [node]) : Everywhere P [node.setProperty group key value] :=
  everywhere_setProperty h.isLocal value (h.built group hgroup) (h.built key hkey) (fun n => h.setValue value n hvalue) hnode

theorem nary (h : Lasting R P) {operator location : Text} {sub sup base : List Node} (hoperator : ∀ c ∈ operator, R c)
    (hlocation : ∀ c ∈ location, R c) (hsub : Everywhere P sub) (hsup : Everywhere P sup) (hbase : Everywhere P base)
    {place : Option Text} (hplace : place.getD [] = location) : Everywhere P [Omml.nary operator sub sup base place] := by
  have hset : ∀ (b : Bool) (key value : Text) (n : Node), key ∈ builtNames → (∀ c ∈ value, R c) → Everywhere P [n] →
      Everywhere P [setPropertyIf b "naryPr" key value n] := by
    intro b key value n hkey hvalue hn
    cases b with
    | false => exact hn
    | true => exact h.setProperty (by decide) hkey hvalue hn
  have hone : ∀ c ∈ ("1" : Text), R c := h.ofOwn (by decide)
  rw [Omml.nary, hplace]
  refine hset _ _ _ _ (by decide) hone (hset _ _ _ _ (by decide) hone (hset _ _ _ _ (by decide) hlocation ?_))
  refine h.setProperty (by decide) (by decide) hoperator (h.mathElement (by decide) ?_)
  refine everywhere_cons.2 ⟨h.mathElement (by decide) hsub, everywhere_cons.2 ⟨?_, ?_⟩⟩
  · exact h.mathElement (by decide) hsup
  · exact h.mathElement (by decide) hbase

theorem delimiter (h : Lasting R P) {opening close : Text} (hopening : ∀ c ∈ opening, R c) (hclose : ∀ c ∈ close, R c)
    (hl : Everywhere P l) : Everywhere P [Omml.delimiter opening close l] := by
  refine h.setProperty (by decide) (by decide) hclose (h.setProperty (by decide) (by decide) hopening ?_)
  exact h.mathElement (by decide) (h.mathElement (by decide) hl)

theorem slotChildren (hnode : Everywhere P [node]) (name : Text) : Everywhere P (Repair.slotChildren node name) := by
  unfold Repair.slotChildren
  cases hslot : node.slot? name with
  | none => exact everywhere_nil
  | some slot => exact (everywhere_singleton.1 hnode).2.children (List.mem_of_find?_eq_some hslot)

theorem interior (hl : Everywhere P l) : Everywhere P (Repair.interior l) :=
  hl.sublist ((List.dropLast_sublist _).trans (List.drop_sublist ..))

/-! ### Repairs of single nodes -/

theorem unwrapBox (n : Node) (hn : Everywhere P [n]) : Everywhere P (Repair.unwrapBox n) := by
  unfold Repair.unwrapBox
  split
  · next slot _ hslot =>
    split
    · exact (everywhere_singleton.1 hn).2.children (by simp [hslot])
    · exact hn
  · exact hn

theorem underOverPoints (h : Lasting R P) : ∀ c ∈ underOver, R c := h.ofOwn (by decide)

theorem promoteScript (h : Lasting R P) (n : Node) (hn : Everywhere P [n]) : Everywhere P [Repair.promoteScript n] := by
  unfold Repair.promoteScript
  split
  · split
    · next base hbase =>
      dsimp only
      split
      · have hglyphs : ∀ c ∈ base.glyphs, R c := by
          refine h.glyphs ((slotChildren hn "e").of_mem ?_)
          rw [hbase]
          exact List.mem_singleton.2 rfl
        refine h.nary hglyphs ?_ (slotChildren hn _) (slotChildren hn _) everywhere_nil rfl
        split
        · exact h.underOverPoints
        · exact fun c hc => absurd hc List.not_mem_nil
      · exact hn
    · exact hn
  · exact hn

theorem placeLimits (h : Lasting R P) (n : Node) (hn : Everywhere P [n]) : Everywhere P [Repair.placeLimits n] := by
  unfold Repair.placeLimits
  split
  · exact h.setProperty (by decide) (by decide) h.underOverPoints hn
  · exact hn

theorem dissolveInvalid (n : Node) (hn : Everywhere P [n]) : Everywhere P (Repair.dissolveInvalid n) := by
  unfold Repair.dissolveInvalid
  split
  · split
    · exact everywhere_nil
    · next base hbase =>
      split
      · exact hn
      · exact (everywhere_singleton.1 hn).2.children (List.mem_of_find?_eq_some hbase)
  · exact hn

theorem normalizeTextElement (h : Lasting R P) (n : Node) (hn : Everywhere P [n]) :
    Everywhere P [Repair.normalizeTextElement n] := by
  obtain ⟨hroot, hbelow⟩ := everywhere_singleton.1 hn
  refine everywhere_singleton.2 ⟨h.normalized n hroot, ?_⟩
  cases n with
  | element tag text children tail =>
    simp only [Repair.normalizeTextElement]
    split
    · exact hbelow
    · exact hbelow
  | comment | instruction => exact hbelow

/-! ### Bars with digits -/

/-- The runs that a bar with digits is made into have the properties of the run that it stood in. -/
theorem splitNormRun? (h : Lasting R P) {new : List Node} (hnew : Repair.splitNormRun? node = some new)
    (hnode : Everywhere P [node]) : Everywhere P new := by
  have hproperties : Everywhere P node.runProperties?.toList := by
    refine everywhere_iff_of_mem.2 fun n hn => ?_
    exact (everywhere_singleton.1 hnode).2.of_mem (List.mem_of_find?_eq_some (Option.mem_toList.1 hn))
  have hrun : ∀ text : Text, (∀ c ∈ text, R c) → Everywhere P [Omml.run text node.runProperties?] :=
    fun text htext => h.run htext hproperties
  have hunless : ∀ text : Text, (∀ c ∈ text, R c) → Everywhere P (runUnlessEmpty text node.runProperties?) := by
    intro text htext
    unfold runUnlessEmpty
    split
    · exact everywhere_nil
    · exact hrun text htext
  have hbar : ∀ digits : Text, (∀ c ∈ digits, R c) → Everywhere P [scriptedBar digits node.runProperties?] := by
    intro digits hdigits
    have hslot : ∀ name text : Text, name ∈ builtNames → (∀ c ∈ text, R c) →
        Everywhere P [Omml.mathElement name [Omml.run text node.runProperties?]] :=
      fun name text hname htext => h.mathElement hname (hrun text htext)
    have hsign : ∀ c ∈ normBar, R c := h.ofOwn (by decide)
    unfold scriptedBar
    split
    · next d e rest =>
      refine h.mathElement (by decide) (everywhere_cons.2 ⟨hslot _ _ (by decide) hsign, ?_⟩)
      refine everywhere_cons.2 ⟨hslot _ _ (by decide) fun c hc => ?_, hslot _ _ (by decide) fun c hc => ?_⟩
      · exact hdigits c (by simp [List.mem_singleton.1 hc])
      · exact hdigits c (List.mem_cons_of_mem _ hc)
    · refine h.mathElement (by decide) (everywhere_cons.2 ⟨hslot _ _ (by decide) hsign, ?_⟩)
      exact hslot _ _ (by decide) hdigits
  unfold Repair.splitNormRun? at hnew
  split at hnew
  · next before digits after hbreak =>
    obtain rfl := Option.some.inj hnew
    obtain ⟨htext, -⟩ := exists_of_breakAt?_barWithDigits? hbreak
    have hpoints : ∀ c ∈ before ++ (normBar ++ (digits ++ after)), R c := by
      rw [← htext]
      exact h.runText hnode
    refine everywhere_append.2 ⟨hunless _ fun c hc => hpoints c (by simp [hc]), everywhere_cons.2 ⟨?_, ?_⟩⟩
    · refine hbar _ fun c hc => ?_
      obtain ⟨d, hd, rfl⟩ := List.mem_map.1 hc
      exact h.plainDigit (hpoints d (by simp [hd]))
    · exact hunless _ fun c hc => hpoints c (by simp [hc])
  · cases hnew

theorem splitFirstAmong? (h : Lasting R P) :
    ∀ {nodes new}, Repair.splitFirstAmong? nodes = some new → Everywhere P nodes → Everywhere P new := by
  intro nodes
  induction nodes using forest_induction with
  | nil => intro new hnew; cases hnew
  | element tag text children tail rest ihc ihr =>
    intro new hnew hnodes
    obtain ⟨hnode, hrest⟩ := everywhere_cons.1 hnodes
    obtain ⟨hroot, hbelow⟩ := everywhere_singleton.1 hnode
    simp only [Repair.splitFirstAmong?, splitFirstIn?] at hnew
    split at hnew
    · next inside hinside =>
      obtain rfl := Option.some.inj hnew
      refine everywhere_append.2 ⟨?_, hrest⟩
      split at hinside
      · next split hsplit =>
        obtain rfl := Option.some.inj hinside
        exact h.splitNormRun? hsplit hnode
      · obtain ⟨children', hchildren, rfl⟩ := Option.map_eq_some_iff.1 hinside
        exact everywhere_singleton.2 ⟨h.isLocal _ _ _ _ _ hroot, ihc hchildren hbelow⟩
    · obtain ⟨rest', hrest', rfl⟩ := Option.map_eq_some_iff.1 hnew
      exact everywhere_cons.2 ⟨hnode, ihr hrest' hrest⟩
  | comment content tail rest ih | instruction target content tail rest ih =>
    intro new hnew hnodes
    obtain ⟨hnode, hrest⟩ := everywhere_cons.1 hnodes
    simp only [Repair.splitFirstAmong?, splitFirstIn?] at hnew
    obtain ⟨rest', hrest', rfl⟩ := Option.map_eq_some_iff.1 hnew
    exact everywhere_cons.2 ⟨hnode, ih hrest' hrest⟩

theorem splitNormRunsFor (h : Lasting R P) (rounds : Nat) (hl : Everywhere P l) :
    Everywhere P (Repair.splitNormRunsFor rounds l) := by
  induction rounds generalizing l with
  | zero => exact hl
  | succ rounds ih =>
    simp only [Repair.splitNormRunsFor]
    split
    · next new hnew => exact ih (h.splitFirstAmong? hnew hl)
    · exact hl

/-! ### Bodies -/

theorem ensureBody (h : Lasting R P) (hnode : Everywhere P [node]) : Everywhere P [Repair.ensureBody node] := by
  unfold Repair.ensureBody
  split
  · obtain ⟨hroot, hbelow⟩ := everywhere_singleton.1 hnode
    refine h.isLocal.withChildren hroot (everywhere_append.2 ⟨hbelow, ?_⟩)
    exact h.mathElement (by decide) everywhere_nil
  · exact hnode

theorem appendToBody (h : Lasting R P) {new : Node} (hnode : Everywhere P [node]) (hnew : Everywhere P [new]) :
    Everywhere P [Repair.appendToBody node new] := by
  obtain ⟨hroot, hbelow⟩ := everywhere_singleton.1 hnode
  refine h.isLocal.withChildren hroot (everywhere_modifyFirst (fun body _ hbody => ?_) hbelow)
  obtain ⟨hbody, hinside⟩ := everywhere_singleton.1 hbody
  exact h.isLocal.withChildren hbody (everywhere_append.2 ⟨hinside, hnew⟩)

/-- What every node has that the repair has gone through, with the runs that were adopted. -/
theorem adoptAmong_of_inside
    (happend : ∀ node new, Everywhere P [node] → Everywhere P [new] → Everywhere P [Repair.appendToBody node new]) :
    ∀ nodes, (∀ n ∈ nodes, Everywhere P [Repair.adoptInside n]) → Everywhere P (adoptAmong nodes)
  | [], _ => everywhere_nil
  | [node], hnodes => hnodes node (by simp)
  | node :: next :: rest, hnodes => by
    rw [adoptAmong]
    split
    · refine everywhere_cons.2 ⟨happend _ _ (hnodes node (by simp)) (hnodes next (by simp)), ?_⟩
      exact adoptAmong_of_inside happend rest fun n hn => hnodes n (by simp [hn])
    · refine everywhere_cons.2 ⟨hnodes node (by simp), ?_⟩
      exact adoptAmong_of_inside happend (next :: rest) fun n hn => hnodes n (by simp [List.mem_cons.1 hn])

theorem adoptInside (h : Lasting R P) (node : Node) (hnode : Everywhere P [node]) :
    Everywhere P [Repair.adoptInside node] := by
  induction node using tree_induction with
  | element tag text children tail ih =>
    obtain ⟨hroot, hbelow⟩ := everywhere_singleton.1 hnode
    refine h.ensureBody (everywhere_singleton.2 ⟨h.isLocal _ _ _ _ _ hroot, ?_⟩)
    exact adoptAmong_of_inside (fun _ _ => h.appendToBody) children fun n hn => ih n hn (hbelow.of_mem hn)
  | comment content tail | instruction target content tail => exact hnode

/-! ### Bases -/

theorem wrapBasesAmong (h : Lasting R P) (nodes : List Node) (hnodes : Everywhere P nodes) :
    Everywhere P (Repair.wrapBasesAmong nodes) := by
  induction nodes using forest_induction with
  | nil => exact hnodes
  | element tag text children tail rest ihc ihr =>
    obtain ⟨hnode, hrest⟩ := everywhere_cons.1 hnodes
    obtain ⟨hroot, hbelow⟩ := everywhere_singleton.1 hnode
    refine everywhere_cons.2 ⟨?_, ihr hrest⟩
    have hout : Everywhere P [Node.element tag text (Repair.wrapBasesAmong children) tail] :=
      everywhere_singleton.2 ⟨h.isLocal _ _ _ _ _ hroot, ihc hbelow⟩
    simp only [wrapBases]
    split
    · next opening closing _ houter =>
      obtain ⟨base, hslot, hends⟩ := Option.bind_eq_some_iff.1 houter
      obtain ⟨first, inner, last, hobjects, hfirst, hpair, -, -⟩ := exists_of_outerDelimiters? hends
      have hopening : ∀ c ∈ opening, R c := by
        rw [← hfirst]
        exact h.glyphs ((hbelow.children (List.mem_of_find?_eq_some hslot)).of_mem (by simp [hobjects]))
      refine h.isLocal.withChildren (h.isLocal _ _ _ _ _ hroot) (everywhere_modifyFirst (fun base _ hbase => ?_) (ihc hbelow))
      obtain ⟨hbase, hinside⟩ := everywhere_singleton.1 hbase
      exact h.isLocal.withChildren hbase (h.delimiter hopening (h.closing hpair) (interior hinside))
    · exact hout
  | comment content tail rest ih | instruction target content tail rest ih =>
    obtain ⟨hnode, hrest⟩ := everywhere_cons.1 hnodes
    exact everywhere_cons.2 ⟨hnode, ih hrest⟩

/-! ### Spans -/

/-- What is built in a shape has the property if the objects have it, those that are seen and those that are there. -/
theorem builds_of_covers {rule : SpanRule} {shape : Shape}
    (hcovers : ∀ seen span, rule seen = some span → span.Covers 0 seen shape)
    (hshape : ∀ old build objects, shape old build → Everywhere P old → Everywhere P objects →
      Everywhere P [build objects]) : Builds P rule := by
  intro seen span objects hspan hseen hobjects
  obtain ⟨front, old, rest, rfl, -, -, hold⟩ := hcovers seen span hspan
  exact hshape old span.build objects hold (everywhere_append.1 (everywhere_append.1 hseen).2).1 hobjects

theorem builds_integralSpan (h : Lasting R P) : Builds P (integralSpan 0) := by
  refine builds_of_covers (fun seen span => covers_of_integralSpan) ?_
  rintro old build objects ⟨sign, lower, upper, rfl, -, -, -, rfl⟩ hold -
  obtain ⟨hsign, hlimits⟩ := everywhere_cons.1 hold
  obtain ⟨hlower, hupper⟩ := everywhere_append.1 hlimits
  have hlimit : ∀ limits : List Node, Everywhere P limits → Everywhere P (limits.map limitOf) := by
    intro limits hlimits
    refine everywhere_iff_of_mem.2 fun n hn => ?_
    obtain ⟨object, hobject, rfl⟩ := List.mem_map.1 hn
    exact h.run (h.glyphs (hlimits.of_mem hobject)) everywhere_nil
  exact h.nary (h.glyphs hsign) h.underOverPoints (hlimit lower hlower) (hlimit upper hupper) everywhere_nil rfl

theorem builds_bracketSpan (h : Lasting R P) : Builds P (bracketSpan 0) := by
  refine builds_of_covers (fun seen span => covers_of_bracketSpan) ?_
  rintro old build objects ⟨opening, inner, last, -, -, -, rfl⟩ - hobjects
  exact h.delimiter (h.ofOwn (by decide)) (h.ofOwn (by decide)) (interior hobjects)

theorem builds_braceSpan (h : Lasting R P) : Builds P (braceSpan 0) := by
  refine builds_of_covers (fun seen span => covers_of_braceSpan) ?_
  rintro old build objects (⟨brace, matrix, last, -, -, -, rfl⟩ | ⟨brace, matrix, -, -, rfl⟩) - hobjects
  · exact h.delimiter (h.ofOwn (by decide)) (h.ofOwn (by decide)) (interior hobjects)
  · exact h.delimiter (h.ofOwn (by decide)) (h.ofOwn (by decide)) (hobjects.sublist (List.drop_sublist ..))

theorem builds_promotionSpan (h : Lasting R P) : Builds P (promotionSpan 0) := by
  refine builds_of_covers (fun seen span => covers_of_promotionSpan) ?_
  rintro old build objects ⟨opening, tall, last, close, rfl, hpair, -, rfl⟩ hold hobjects
  exact h.delimiter (h.glyphs (everywhere_cons.1 hold).1) (h.closing hpair) (interior hobjects)

theorem builds_fractionSpan (h : Lasting R P) (hfraction : ∀ name ∈ fractionNames, P (Omml.mathElement name [])) :
    Builds P (fractionSpan 0) := by
  refine builds_of_covers (fun seen span => covers_of_fractionSpan) ?_
  rintro old build objects ⟨opening, integral, text, plus, sum, last, close, rfl, hflat, rfl⟩ hold hobjects
  have hpart : ∀ name ∈ fractionNames, ∀ l, Everywhere P l → Everywhere P [Omml.mathElement name l] :=
    fun name hname l hl => everywhere_singleton.2 ⟨h.isLocal _ _ [] l _ (hfraction name hname), hl⟩
  refine h.delimiter (h.glyphs (everywhere_cons.1 hold).1) (h.closing hflat.pair) (hpart _ (by decide) _ ?_)
  refine everywhere_cons.2 ⟨hpart _ (by decide) _ (hobjects.sublist ?_), hpart _ (by decide) _ (hobjects.sublist ?_)⟩
  · exact (List.take_sublist ..).trans (List.drop_sublist ..)
  · exact (List.dropLast_sublist _).trans (List.drop_sublist ..)

/-! ### All repairs -/

variable {f : Fragment}

/-- What every node has, it has after a repair. -/
theorem apply (h : Lasting R P) {rule : RepairRule}
    (hfraction : rule = .rebuildFractions → ∀ name ∈ fractionNames, P (Omml.mathElement name [])) (state : RepairState)
    (hf : Everywhere P f.children) : Everywhere P (rule.apply state f).1.children := by
  have hP := h.isLocal
  have hsweep : ∀ rule, Survives P rule := fun _ => survives_of_local hP
  cases rule with
  | stripForeign => exact hP.pruneAll _ _ _ hf
  | unwrapBoxes => exact hP.rebuildAll unwrapBox _ hf
  | rebuildIntegrals => exact everywhere_sweepFor (hsweep _) h.builds_integralSpan _ _ (hP.rebuildAll h.promoteScript _ hf)
  | repairNorms => exact h.splitNormRunsFor _ hf
  | adoptIntegrands => exact adoptAmong_of_inside (fun _ _ => h.appendToBody) _ fun n hn => h.adoptInside n (hf.of_mem hn)
  | placeIntegralLimits => exact hP.rebuildAll h.placeLimits _ hf
  | wrapScriptBases => exact h.wrapBasesAmong _ hf
  | wrapBrackets => exact everywhere_sweepFor (hsweep _) h.builds_bracketSpan _ _ hf
  | wrapBraces => exact everywhere_sweepFor (hsweep _) h.builds_braceSpan _ _ hf
  | rebuildFractions => exact everywhere_sweepFor (hsweep _) (h.builds_fractionSpan (hfraction rfl)) maxSweeps f hf
  | promoteDelimiters =>
    simp only [RepairRule.apply]
    split
    · exact hf
    · exact everywhere_sweepFor (hsweep _) h.builds_promotionSpan _ _ hf
  | repairInvalidScripts => exact hP.rebuildAll dissolveInvalid _ (hP.rebuildAll dissolveInvalid _ hf)
  | removeUndefinedStyles => exact hP.pruneAll _ _ _ (hP.pruneAll _ _ _ hf)
  | normalizeTexts => exact hP.rebuildAll h.normalizeTextElement _ hf

theorem foldl (h : Lasting R P) (rules : List RepairRule)
    (hfraction : .rebuildFractions ∈ rules → ∀ name ∈ fractionNames, P (Omml.mathElement name []))
    (start : Fragment × RepairState) (hstart : Everywhere P start.1.children) :
    Everywhere P (rules.foldl (fun (f, state) rule => rule.apply state f) start).1.children := by
  induction rules generalizing start with
  | nil => exact hstart
  | cons rule rules ih =>
    refine ih (fun hmem => hfraction (List.mem_cons_of_mem _ hmem)) _ (h.apply (fun heq => ?_) start.2 hstart)
    exact hfraction (heq ▸ List.mem_cons_self)

/-- After all repairs everything has what everything has that is left when foreign elements are out. -/
theorem repair (h : Lasting R P) {skip : List Text}
    (hfraction : ∀ name ∈ fractionNames, P (Omml.mathElement name []))
    (hskip : skip.contains RepairRule.stripForeign.name = false) (hf : Everywhere P (stripForeign f).children) :
    Everywhere P (f.repair skip).children := by
  have happly : ∀ rules : List RepairRule, Everywhere P (f.applyRules (.stripForeign :: rules)).children :=
    fun rules => h.foldl rules (fun _ => hfraction) _ hf
  rw [Fragment.repair, RepairRule.filter_all (by rw [hskip]; rfl)]
  split
  · rw [List.filter_cons_of_pos (by decide)]
    exact happly _
  · exact happly _

end Lasting

end EquationExport.Omml
