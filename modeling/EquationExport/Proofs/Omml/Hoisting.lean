import EquationExport.Proofs.Omml.Concerns
import EquationExport.Proofs.Omml.Firm

/-!
# What takes the place of a construct

Boxes and scripts may be taken apart, and then what their slot for a base holds stands in their place. As long as none
of it has one of some names, an element around the construct gets no new child with such a name. All repairs keep it
so: what they put into slots are runs and constructs of their own, or what stood between other objects before.
-/

namespace EquationExport.Omml

open Xml Xml.Node Repair

variable {names : List Text} {node : Node} {a b c d l : List Node}

/-! ### Slots for bases -/

/-- None of the nodes has one of the names. -/
def Lacks (names : List Text) (l : List Node) : Prop := ∀ n ∈ l, n.isOneOf names = false

/-- What the slots for bases among the nodes hold has none of the names. -/
def BasesLack (names : List Text) (l : List Node) : Prop := ∀ slot ∈ l, slot.isNamed "e" = true → Lacks names slot.children

/-- The names of the constructs that may be taken apart. -/
def hoistingNames : List Text := "box" :: scriptNames

/-- If the node is taken apart, nothing that takes its place has one of the names. -/
def GivesNone (names : List Text) (node : Node) : Prop := node.isOneOf hoistingNames = true → BasesLack names node.children

instance (names : List Text) (l : List Node) : Decidable (Lacks names l) :=
  inferInstanceAs (Decidable (∀ n ∈ l, n.isOneOf names = false))

instance (names : List Text) (l : List Node) : Decidable (BasesLack names l) :=
  inferInstanceAs (Decidable (∀ slot ∈ l, slot.isNamed "e" = true → Lacks names slot.children))

instance (names : List Text) (node : Node) : Decidable (GivesNone names node) :=
  inferInstanceAs (Decidable (node.isOneOf hoistingNames = true → BasesLack names node.children))

theorem concerns_givesNone (names : List Text) : Concerns hoistingNames (GivesNone names) := by
  intro node hother h
  rw [hother] at h
  cases h

theorem lacks_append : Lacks names (a ++ b) ↔ Lacks names a ∧ Lacks names b := List.forall_mem_append

theorem basesLack_append : BasesLack names (a ++ b) ↔ BasesLack names a ∧ BasesLack names b := List.forall_mem_append

theorem lacks_singleton : Lacks names [node] ↔ node.isOneOf names = false := List.forall_mem_singleton

theorem Lacks.isNamed (h : Lacks names l) {name : Text} (hname : name ∈ names) (hnode : node ∈ l) :
    node.isNamed name = false := by
  simpa using List.any_eq_false.1 (h node hnode) name hname

/-- Where there is no slot for a base, none holds anything. -/
theorem Lacks.basesLack (h : Lacks names l) (he : ("e" : Text) ∈ names) : BasesLack names l := by
  intro slot hslot hnamed
  rw [h.isNamed he hslot] at hnamed
  cases hnamed

/-- What a construct that is taken apart leaves behind. -/
theorem GivesNone.lacks {slot : Node} (h : GivesNone names node) (hnode : node.isOneOf hoistingNames = true)
    (hslot : node.slot? "e" = some slot) : Lacks names slot.children :=
  h hnode slot (List.mem_of_find?_eq_some hslot) (by simpa using List.find?_some hslot)

theorem isOneOf_hoistingNames_of_isScript (h : node.isScript = true) : node.isOneOf hoistingNames = true := by
  rw [isOneOf, hoistingNames, List.any_cons, Bool.or_eq_true]
  exact .inr h

/-! ### What repairs leave so -/

/-- The new nodes give none of the names, and they have none, in themselves or in their bases, if the old had none. -/
structure Passes (names : List Text) (old new : List Node) : Prop where
  givesNone : Everywhere (GivesNone names) new
  lacks : Lacks names old → Lacks names new
  basesLack : BasesLack names old → BasesLack names new

/-- From nodes that give none of the names come others that give none. -/
def GivesOn (names : List Text) (old new : List Node) : Prop := Everywhere (GivesNone names) old → Passes names old new

theorem congruence_givesOn (names : List Text) : Congruence (GivesOn names) where
  refl _ h := ⟨h, id, id⟩
  trans hab hbc h := by
    have hb := hab h
    have hc := hbc hb.givesNone
    exact ⟨hc.givesNone, fun ha => hc.lacks (hb.lacks ha), fun ha => hc.basesLack (hb.basesLack ha)⟩
  append hab hcd h := by
    obtain ⟨ha, hc⟩ := everywhere_append.1 h
    have hb := hab ha
    have hd := hcd hc
    exact ⟨everywhere_append.2 ⟨hb.givesNone, hd.givesNone⟩,
      fun h => lacks_append.2 ((lacks_append.1 h).imp hb.lacks hd.lacks),
      fun h => basesLack_append.2 ((basesLack_append.1 h).imp hb.basesLack hd.basesLack)⟩
  inside {tag text l l' tail} hl h := by
    obtain ⟨hroot, hbelow⟩ := everywhere_singleton.1 h
    have hl' := hl hbelow
    refine ⟨everywhere_singleton.2 ⟨fun hnode => hl'.basesLack (hroot hnode), hl'.givesNone⟩, fun hlacks => ?_, ?_⟩
    · rw [lacks_singleton] at hlacks ⊢
      exact hlacks
    · intro hbases slot hslot hnamed
      obtain rfl := List.mem_singleton.1 hslot
      exact hl'.lacks (hbases _ (List.mem_singleton.2 rfl) hnamed)

/-- New nodes that have none of the names. -/
theorem Passes.of_lacks (he : ("e" : Text) ∈ names) (hnew : Everywhere (GivesNone names) b) (h : Lacks names b) : Passes names a b :=
  ⟨hnew, fun _ => h, fun _ => h.basesLack he⟩

/-- A new object that has none of the names. -/
theorem Passes.of_object {name : Text} (he : ("e" : Text) ∈ names) (hname : name ∉ names) (hnamed : node.isNamed name = true)
    (hnew : Everywhere (GivesNone names) [node]) : Passes names a [node] :=
  .of_lacks he hnew (lacks_singleton.2 (isOneOf_of_isNamed hnamed hname))

/-- What is left of a construct that is taken apart. -/
theorem Passes.of_slot {slot : Node} (he : ("e" : Text) ∈ names) (h : Everywhere (GivesNone names) [node])
    (hnode : node.isOneOf hoistingNames = true) (hslot : node.slot? "e" = some slot) : Passes names a slot.children := by
  obtain ⟨hroot, hbelow⟩ := everywhere_singleton.1 h
  exact .of_lacks he (hbelow.children (List.mem_of_find?_eq_some hslot)) (hroot.lacks hnode hslot)

/-- The names of the objects that repairs build or change, but for fractions. -/
def objectNames : List Text := Text.ofStrings ["r", "t", "nary", "d", "sSub", "sSubSup"]

theorem everywhere_givesNone_scriptedBar {properties : Option Node} (hr : ("r" : Text) ∉ names) (digits : Text)
    (hproperties : Everywhere (GivesNone names) properties.toList) :
    Everywhere (GivesNone names) [scriptedBar digits properties] := by
  have hG := concerns_givesNone names
  have hrun : ∀ text, Everywhere (GivesNone names) [run text properties] := fun text => hG.run (by decide) text hproperties
  have hlacks : ∀ text, Lacks names [run text properties] := fun text =>
    lacks_singleton.2 (isOneOf_of_isNamed (isRun_run text properties) hr)
  -- the base of the scripts is the bar alone
  have hroot : ∀ name rest, (∀ n ∈ rest, n.isNamed "e" = false) →
      GivesNone names (mathElement name (mathElement "e" [run normBar properties] :: rest)) := by
    intro name rest hrest _ slot hslot hnamed
    rcases List.mem_cons.1 hslot with rfl | hslot
    · exact hlacks normBar
    · rw [hrest slot hslot] at hnamed
      cases hnamed
  have hslot : ∀ name ∈ slotNames, ∀ text, Everywhere (GivesNone names) [mathElement name [run text properties]] := by
    intro name hname text
    have hall : ∀ name ∈ slotNames, name ∉ hoistingNames := by decide
    exact hG.construct (hall name hname) (hrun text)
  unfold Repair.scriptedBar
  split
  · refine everywhere_singleton.2 ⟨hroot "sSubSup" _ ?_, everywhere_cons.2 ⟨hslot _ (by decide) _, everywhere_cons.2
      ⟨hslot _ (by decide) _, hslot _ (by decide) _⟩⟩⟩
    intro n hn
    rcases List.mem_pair.1 hn with rfl | rfl <;> rfl
  · refine everywhere_singleton.2 ⟨hroot "sSub" _ ?_, everywhere_cons.2 ⟨hslot _ (by decide) _, hslot _ (by decide) _⟩⟩
    intro n hn
    rw [List.mem_singleton.1 hn]
    rfl

theorem everywhere_givesNone_nary (sign : Text) (location : Option Text) {sub sup : List Node}
    (hsub : Everywhere (GivesNone names) sub) (hsup : Everywhere (GivesNone names) sup) :
    Everywhere (GivesNone names) [nary sign sub sup [] location] := by
  have hG := concerns_givesNone names
  refine hG.nary (by decide) sign location (everywhere_cons.2 ⟨hG.construct (by decide) hsub, ?_⟩)
  exact everywhere_cons.2 ⟨hG.construct (by decide) hsup, hG.construct (by decide) everywhere_nil⟩

theorem isNamed_scriptedBar (digits : Text) (properties : Option Node) :
    (scriptedBar digits properties).isNamed "sSubSup" = true ∨ (scriptedBar digits properties).isNamed "sSub" = true := by
  unfold Repair.scriptedBar
  split
  · exact .inl rfl
  · exact .inr rfl

namespace GivesOn

theorem refl (names : List Text) (l : List Node) : GivesOn names l l := (congruence_givesOn names).refl l

variable (he : ("e" : Text) ∈ names) (hnames : ∀ name ∈ objectNames, name ∉ names)
include he

/-- What is left out gives none of the names. -/
theorem drop (l : List Node) : GivesOn names l [] := fun _ => .of_lacks he everywhere_nil (List.forall_mem_nil _)

theorem unwrapBox (n : Node) : GivesOn names [n] (unwrapBox n) := by
  intro h
  unfold Repair.unwrapBox
  split
  · next slot hbox hchildren =>
    split
    · next hslot =>
      refine .of_slot he h (by rw [isOneOf, hoistingNames, List.any_cons, hbox, Bool.true_or]) ?_
      rw [slot?, hchildren, List.find?_cons, hslot]
    · exact refl names _ h
  · exact refl names _ h

theorem dissolveInvalid (n : Node) : GivesOn names [n] (dissolveInvalid n) := by
  intro h
  unfold Repair.dissolveInvalid
  split
  · next hscript =>
    split
    · exact drop he _ h
    · next base hbase =>
      split
      · exact refl names _ h
      · exact .of_slot he h (isOneOf_hoistingNames_of_isScript hscript) hbase
  · exact refl names _ h

include hnames

/-- One node becomes an object, or it stays as it is. -/
theorem of_object {new : Node} {name : Text} (hname : name ∈ objectNames) (hcases : new = node ∨ new.isNamed name = true)
    (h : Everywhere (GivesNone names) [node] → Everywhere (GivesNone names) [new]) : GivesOn names [node] [new] := by
  rcases hcases with rfl | hnamed
  · exact refl names _
  · exact fun hnode => .of_object he (hnames name hname) hnamed (h hnode)

theorem promoteScript (n : Node) : GivesOn names [n] [promoteScript n] := by
  refine of_object he hnames (show ("nary" : Text) ∈ objectNames by decide) ?_ (everywhere_promoteScript fun sign sub sup location _ =>
    everywhere_givesNone_nary sign location)
  rcases promoteScript_cases n with heq | ⟨sign, location, -, heq⟩
  · exact .inl heq
  · exact .inr (by rw [heq, isNamed_nary])

theorem ensureBody (n : Node) : GivesOn names [n] [ensureBody n] := by
  refine of_object he hnames (show ("nary" : Text) ∈ objectNames by decide) ?_ ((concerns_givesNone names).ensureBody (by decide))
  unfold Repair.ensureBody
  split
  · next h => exact .inr ((isNamed_withChildren ..).trans (Bool.and_eq_true_iff.1 h).1)
  · exact .inl rfl

theorem placeLimits (n : Node) : GivesOn names [n] [placeLimits n] := by
  refine of_object he hnames (show ("nary" : Text) ∈ objectNames by decide) ?_ ((concerns_givesNone names).placeLimits (by decide))
  unfold Repair.placeLimits
  split
  · next h => exact .inr ((isNamed_setProperty ..).trans (Bool.and_eq_true_iff.1 h).1)
  · exact .inl rfl

theorem normalizeTextElement (n : Node) : GivesOn names [n] [normalizeTextElement n] := by
  refine of_object he hnames (show ("t" : Text) ∈ objectNames by decide) ?_ ((concerns_givesNone names).normalizeTextElement (by decide))
  have hsame : SameName n (Repair.normalizeTextElement n) := name?_normalizeTextElement n
  cases htext : n.isNamed "t" with
  | true => exact .inr (by rw [hsame.isNamed, htext])
  | false => exact .inl (normalizeTextElement_eq_self htext)

theorem splitNormRun {n : Node} {new : List Node} (hnew : splitNormRun? n = some new) : GivesOn names [n] new := by
  intro h
  have hr : ("r" : Text) ∉ names := hnames _ (by decide)
  have hproperties : Everywhere (GivesNone names) n.runProperties?.toList := everywhere_runProperties h
  refine .of_lacks he (everywhere_iff_of_mem.2 ?_) ?_
  · exact forall_mem_splitNormRun? hnew (fun text => (concerns_givesNone names).run (by decide) text hproperties)
      fun digits => everywhere_givesNone_scriptedBar hr digits hproperties
  · refine forall_mem_splitNormRun? hnew (fun text => isOneOf_of_isNamed (isRun_run text _) hr) fun digits => ?_
    rcases isNamed_scriptedBar digits n.runProperties? with hnamed | hnamed
    · exact isOneOf_of_isNamed hnamed (hnames _ (by decide))
    · exact isOneOf_of_isNamed hnamed (hnames _ (by decide))

theorem appendToBody {n run : Node} (hnary : n.isNamed "nary" = true) : GivesOn names [n, run] [appendToBody n run] := by
  intro h
  obtain ⟨hnode, hrun⟩ := everywhere_cons.1 h
  exact .of_object he (hnames _ (by decide)) ((isNamed_withChildren ..).trans hnary)
    ((concerns_givesNone names).appendToBody (by decide) hnary hnode hrun)

theorem integral (sign : Text) {lower upper old : List Node} :
    GivesOn names old [nary sign (lower.map limitOf) (upper.map limitOf) [] (some underOver)] := by
  intro _
  have hrun : ∀ text, Everywhere (GivesNone names) [plainRun text] := fun text =>
    (concerns_givesNone names).run (by decide) text everywhere_nil
  exact .of_object he (hnames _ (by decide)) (isNamed_nary ..)
    (everywhere_givesNone_nary sign _ (everywhere_limits hrun lower) (everywhere_limits hrun upper))

/-- What stands between delimiters has stood between other objects before. -/
theorem delimiter (opening closing : Text) (hl : l ⊆ a) : GivesOn names a [delimiter opening closing l] := by
  intro ha
  exact .of_object he (hnames "d" (by decide)) rfl ((concerns_givesNone names).enclosed (by decide) opening closing
    (everywhere_iff_of_mem.2 fun n hn => ha.of_mem (hl hn)))

end GivesOn

/-- No repair makes a box or a script give one of the names. -/
theorem steps_givesOn (he : ("e" : Text) ∈ names) (hnames : ∀ name ∈ objectNames, name ∉ names) : Steps (GivesOn names) where
  toCongruence := congruence_givesOn names
  foreign _ _ := GivesOn.drop he _
  unwrapBox := GivesOn.unwrapBox he
  promoteScript := GivesOn.promoteScript he hnames
  splitNormRun _ _ := GivesOn.splitNormRun he hnames
  ensureBody := GivesOn.ensureBody he hnames
  appendToBody _ _ hnary _ := GivesOn.appendToBody he hnames hnary
  placeLimits := GivesOn.placeLimits he hnames
  integral sign _ _ _ _ _ _ := GivesOn.integral he hnames sign
  enclose opening closing first inner last _ _ := GivesOn.delimiter he hnames opening closing (by simp)
  leaveOpen opening first inner _ := GivesOn.delimiter he hnames opening [] (by simp)
  dissolveInvalid := GivesOn.dissolveInvalid he
  normalizeTextElement := GivesOn.normalizeTextElement he hnames

end EquationExport.Omml
