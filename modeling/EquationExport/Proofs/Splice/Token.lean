import EquationExport.Placeholder
import EquationExport.Proofs.Text.Occurrence
import EquationExport.Text.Digit
import Mathlib.Data.List.Nodup

/-!
# Tokens

The tokens that a registry hands out are told apart by their numbers: no token is part of another one. They
consist of letters, digits and underscores, so no token reaches into markup.
-/

namespace EquationExport

open EquationExport.Text

/-! ### Numerals -/

/-- The digits of a number, at least six places wide. -/
def numeral (n : Nat) : Text := Text.padded 6 n

theorem CodePoint.ofChar_injective : Function.Injective CodePoint.ofChar := by
  intro a b h
  have hval : a.toNat = b.toNat := congrArg CodePoint.val h
  exact Char.toNat_inj.1 hval

/-- The characters of a numeral: zeros, and the digits of the number. -/
theorem numeral_eq (n : Nat) :
    numeral n = (List.replicate (6 - (Nat.toDigits 10 n).length) '0' ++ Nat.toDigits 10 n).map CodePoint.ofChar := by
  have hpos : ¬ ((n : Int) < 0) := by omega
  simp [numeral, Text.padded, hpos, Text.ofNat]

theorem numeral_injective : Function.Injective numeral := by
  intro m n h
  rw [numeral_eq, numeral_eq] at h
  have hread := congrArg (fun digits => Nat.ofDigitChars 10 digits 0) (List.map_injective_iff.2 CodePoint.ofChar_injective h)
  simpa [Nat.ofDigitChars_append] using hread

theorem isAsciiDigit_of_mem_numeral {n : Nat} {c : CodePoint} (h : c ∈ numeral n) : c.isAsciiDigit := by
  rw [numeral_eq, List.mem_map] at h
  obtain ⟨d, hd, rfl⟩ := h
  have hdigit : d.isDigit := by
    rcases List.mem_append.1 hd with hd | hd
    · rw [List.eq_of_mem_replicate hd]
      decide
    · exact Nat.isDigit_of_mem_toDigits (by decide) (by decide) hd
  simp only [Char.isDigit, Bool.and_eq_true, decide_eq_true_eq] at hdigit
  have h1 : 48 ≤ d.toNat := UInt32.le_iff_toNat_le.1 hdigit.1
  have h2 : d.toNat ≤ 57 := UInt32.le_iff_toNat_le.1 hdigit.2
  simp [CodePoint.isAsciiDigit, CodePoint.inRange, CodePoint.ofChar, h1, h2]

/-! ### The tokens of a registry -/

/-- A token that a registry hands out, the first of which has the number 1. -/
def IsToken (t : Text) : Prop := ∃ n : Nat, t = Registry.token n

/-- The characters of tokens. -/
def CodePoint.isTokenPoint (c : CodePoint) : Bool := c ∈ ("_MATH" : Text) || c.isAsciiDigit

theorem token_eq (n : Nat) : Registry.token n = ("__MATH_" : Text) ++ numeral n ++ ("__" : Text) := rfl

theorem IsToken.isTokenPoint {t : Text} (h : IsToken t) {c : CodePoint} (hc : c ∈ t) : c.isTokenPoint := by
  obtain ⟨n, rfl⟩ := h
  rw [token_eq, List.mem_append, List.mem_append] at hc
  rcases hc with (hc | hc) | hc
  · revert c
    decide
  · simp [CodePoint.isTokenPoint, isAsciiDigit_of_mem_numeral hc]
  · revert c
    decide

/-- A character that tokens do not consist of is in none. -/
theorem IsToken.not_mem {t : Text} (h : IsToken t) {c : CodePoint} (hc : c.isTokenPoint = false) : c ∉ t :=
  fun hmem => by simp [h.isTokenPoint hmem] at hc

theorem IsToken.getElem?_zero {t : Text} (h : IsToken t) : t[0]? = some (CodePoint.ofChar '_') := by
  obtain ⟨n, rfl⟩ := h
  rfl

theorem IsToken.ne_nil {t : Text} (h : IsToken t) : t ≠ [] := by
  rintro rfl
  cases h.getElem?_zero

/-- The first letter of a token stands in its third place only. -/
theorem eq_two_of_getElem?_token {k i : Nat} (h : (Registry.token k)[i]? = some (CodePoint.ofChar 'M')) : i = 2 := by
  have hunderscore : some (CodePoint.ofChar '_') ≠ some (CodePoint.ofChar 'M') := by decide
  rcases i with _ | _ | _ | i
  · exact absurd h hunderscore
  · exact absurd h hunderscore
  · rfl
  · have hrest : CodePoint.ofChar 'M' ∈ ("ATH_" : Text) ++ numeral k ++ ("__" : Text) := List.mem_of_getElem? h
    rw [List.mem_append, List.mem_append] at hrest
    rcases hrest with (hmem | hmem) | hmem
    · exact absurd hmem (by decide)
    · exact absurd (isAsciiDigit_of_mem_numeral hmem) (by decide)
    · exact absurd hmem (by decide)

/-- Digits up to the first underscore are told by the text they stand in. -/
theorem eq_of_append_underscore {a b s t : Text} (ha : ∀ c ∈ a, c.isAsciiDigit) (hb : ∀ c ∈ b, c.isAsciiDigit)
    (h : a ++ CodePoint.ofChar '_' :: s = b ++ CodePoint.ofChar '_' :: t) : a = b := by
  have hread : ∀ d r : Text, (∀ c ∈ d, c.isAsciiDigit) → (d ++ CodePoint.ofChar '_' :: r).takeWhile (·.isAsciiDigit) = d := by
    intro d r hd
    rw [List.takeWhile_append_of_pos hd, List.takeWhile_cons_of_neg (by decide), List.append_nil]
  rw [← hread a s ha, h, hread b t hb]

/-- No token is part of another one. -/
theorem eq_of_infix_token {m k : Nat} (h : Registry.token m <:+: Registry.token k) : m = k := by
  obtain ⟨i, hi⟩ := infix_iff_exists_standsAt.1 h
  have hlength : 2 < (Registry.token m).length := by
    rw [token_eq, List.length_append, List.length_append, show ("__MATH_" : Text).length = 7 from by decide]
    omega
  have hM := hi.getElem? hlength
  have htwo : i + 2 = 2 := eq_two_of_getElem?_token (hM.trans rfl)
  obtain rfl : i = 0 := by omega
  obtain ⟨b, hb⟩ := standsAt_zero.1 hi
  rw [token_eq, token_eq, List.append_assoc, List.append_assoc, List.append_assoc, List.append_cancel_left_eq] at hb
  exact numeral_injective (eq_of_append_underscore (fun c hc => isAsciiDigit_of_mem_numeral hc)
    (fun c hc => isAsciiDigit_of_mem_numeral hc) hb)

theorem IsToken.eq_of_infix_isToken {s t : Text} (hs : IsToken s) (ht : IsToken t) (h : s <:+: t) : s = t := by
  obtain ⟨m, rfl⟩ := hs
  obtain ⟨k, rfl⟩ := ht
  rw [eq_of_infix_token h]

/-! ### Registering -/

namespace Registry

/--
What a registry keeps true. The next number is larger than that of every token it has handed out, so no token
is handed out twice; a number may be left out, if the markup for it was refused.
-/
structure Numbered (r : Registry) : Prop where
  next : ∃ n : Nat, r.nextId = n
  tokens : ∀ item ∈ r.replacements, ∃ k : Nat, (k : Int) < r.nextId ∧ item.token = token k
  nodup : (r.replacements.map (·.token)).Nodup

theorem numbered_empty : Numbered empty :=
  ⟨⟨1, rfl⟩, fun _ h => absurd h List.not_mem_nil, List.nodup_nil⟩

/-- The next number may be left out. -/
theorem Numbered.skip {r : Registry} (h : r.Numbered) : Numbered { r with nextId := r.nextId + 1 } := by
  obtain ⟨⟨n, hn⟩, htokens, hnodup⟩ := h
  refine ⟨⟨n + 1, by simp [hn]⟩, fun item hitem => ?_, hnodup⟩
  obtain ⟨k, hk, htoken⟩ := htokens item hitem
  exact ⟨k, Int.lt_add_one_of_le (Int.le_of_lt hk), htoken⟩

theorem Numbered.register {r : Registry} (h : r.Numbered) (omml : Text) (display : Bool) :
    (r.register omml display).2.Numbered := by
  obtain ⟨n, hn⟩ := h.next
  have hnew : token n ∉ r.replacements.map (·.token) := by
    intro hmem
    obtain ⟨item, hitem, htoken⟩ := List.mem_map.1 hmem
    obtain ⟨k, hk, hk'⟩ := h.tokens item hitem
    have hnumber : k = n := eq_of_infix_token (hk' ▸ htoken ▸ List.infix_refl _)
    omega
  refine ⟨h.skip.next, fun item hitem => ?_, ?_⟩
  · rcases List.mem_append.1 hitem with hitem | hitem
    · exact h.skip.tokens item hitem
    · rw [List.mem_singleton] at hitem
      exact ⟨n, hn ▸ Int.lt_succ r.nextId, by rw [hitem, hn]⟩
  · simp only [Registry.register, List.map_append, List.map_cons, List.map_nil]
    rw [List.nodup_append]
    refine ⟨h.nodup, List.nodup_singleton _, fun t ht t' ht' heq => ?_⟩
    rw [List.mem_singleton] at ht'
    rw [heq, ht', hn] at ht
    exact hnew ht

theorem Numbered.submit {r : Registry} (h : r.Numbered) (omml display : Payload) :
    (r.submit omml display).2.Numbered := by
  simp only [Registry.submit]
  split
  · exact h.register _ _
  · exact h.skip

theorem Numbered.isToken {r : Registry} (h : r.Numbered) {item : Replacement} (hi : item ∈ r.replacements) :
    IsToken item.token := by
  obtain ⟨k, -, hk⟩ := h.tokens item hi
  exact ⟨k, hk⟩

/-- The registry after some calls, one after the other, each of which may be refused. -/
def submitAll (calls : List (Payload × Payload)) : Registry :=
  calls.foldl (fun r call => (r.submit call.1 call.2).2) empty

theorem numbered_submitAll (calls : List (Payload × Payload)) : (submitAll calls).Numbered := by
  suffices h : ∀ r : Registry, r.Numbered →
      (calls.foldl (fun r call => (r.submit call.1 call.2).2) r).Numbered from h _ numbered_empty
  induction calls with
  | nil => exact fun r hr => hr
  | cons call calls ih => exact fun r hr => ih _ (hr.submit call.1 call.2)

end Registry

end EquationExport

/-!
### What a registry hands out

Any number of calls, one after the other. A call whose arguments can be read is answered by the token with the next
number, and is remembered with it; any other call is refused, and its number is used up. So the tokens that are returned
have rising numbers, and a numeral is told by the text of its token however wide it is. Which equation stands behind a
token is then settled by looking for the token in the document.
-/

namespace EquationExport.Registry

/-! ### One call -/

/-- What a call is to register, markup and display mode, if both can be read. -/
def reading? (call : Payload × Payload) : Option (Text × Bool) :=
  match call.1.readText, call.2.readTruth with
  | .ok omml, .ok display => some (omml, display)
  | _, _ => none

/-- The fields under which a call is validated: the short name of the mode is not among them. -/
theorem ofPayload_call (t : Text) (call : Payload × Payload) :
    Replacement.ofPayload (.record [("token", .text t), ("omml", call.1), ("display_mode", call.2)]) =
      (Payload.both (.ok t) (Payload.both (call.1.readText.mapError fun kind => [⟨"omml", kind⟩])
        (call.2.readTruth.mapError fun kind => [⟨"display_mode", kind⟩]))).map
        fun (token, omml, display) => ⟨token, omml, display⟩ := rfl

/-- A call returns the next token and is remembered, or it is refused; its number is used up in both cases. -/
theorem submit_cases (r : Registry) (call : Payload × Payload) :
    (∃ item, reading? call = some item ∧
      r.submit call.1 call.2 = (.ok (token r.nextId), (r.register item.1 item.2).2)) ∨
    reading? call = none ∧ ∃ problems, r.submit call.1 call.2 = (.error problems, { r with nextId := r.nextId + 1 }) := by
  rw [submit, ofPayload_call, reading?]
  cases call.1.readText with
  | error kind => cases call.2.readTruth <;> exact .inr ⟨rfl, _, rfl⟩
  | ok omml =>
    cases call.2.readTruth with
    | error kind => exact .inr ⟨rfl, _, rfl⟩
    | ok display => exact .inl ⟨(omml, display), rfl, rfl⟩

/-! ### Any number of calls -/

/-- The tokens that some calls return, one after the other, from a registry on. -/
def returned (r : Registry) : List (Payload × Payload) → List Text
  | [] => []
  | call :: calls =>
    let (answer, next) := r.submit call.1 call.2
    answer.toOption.toList ++ next.returned calls

theorem returned_cons (r : Registry) (call : Payload × Payload) (calls : List (Payload × Payload)) :
    r.returned (call :: calls) =
      (r.submit call.1 call.2).1.toOption.toList ++ (r.submit call.1 call.2).2.returned calls := rfl

/-- The tokens that are returned have rising numbers, none of them smaller than the next number of the registry. -/
theorem exists_returned_eq_map (calls : List (Payload × Payload)) {r : Registry} {n : Nat} (hn : r.nextId = n) :
    ∃ numbers : List Nat, r.returned calls = numbers.map (fun k : Nat => token k) ∧ numbers.Pairwise (· < ·) ∧
      ∀ k ∈ numbers, n ≤ k := by
  induction calls generalizing r n with
  | nil => exact ⟨[], rfl, List.Pairwise.nil, fun k hk => absurd hk List.not_mem_nil⟩
  | cons call calls ih =>
    have hnext : r.nextId + 1 = (n + 1 : Nat) := by rw [hn]; rfl
    rcases submit_cases r call with ⟨item, -, hsubmit⟩ | ⟨-, problems, hsubmit⟩
    · obtain ⟨numbers, hmap, hrising, hbound⟩ := ih (r := (r.register item.1 item.2).2) hnext
      refine ⟨n :: numbers, ?_, List.pairwise_cons.2 ⟨hbound, hrising⟩, ?_⟩
      · rw [returned_cons, hsubmit, hmap, List.map_cons, ← hn]
        rfl
      · intro k hk
        rcases List.mem_cons.1 hk with rfl | hk
        · exact Nat.le_refl k
        · exact Nat.le_of_succ_le (hbound k hk)
    · obtain ⟨numbers, hmap, hrising, hbound⟩ := ih (r := { r with nextId := r.nextId + 1 }) hnext
      refine ⟨numbers, ?_, hrising, fun k hk => Nat.le_of_succ_le (hbound k hk)⟩
      rw [returned_cons, hsubmit, hmap]
      rfl

/-- The registry after some calls, from a registry on. -/
def submitFrom (r : Registry) (calls : List (Payload × Payload)) : Registry :=
  calls.foldl (fun r call => (r.submit call.1 call.2).2) r

theorem submitFrom_cons (r : Registry) (call : Payload × Payload) (calls : List (Payload × Payload)) :
    r.submitFrom (call :: calls) = (r.submit call.1 call.2).2.submitFrom calls := rfl

/-- An entry of the registry. -/
def entry (token : Text) (item : Text × Bool) : Replacement := ⟨token, item.1, item.2⟩

/--
The calls that can be read are those that return a token. They are added to what the registry remembers, in order, and
every call uses one number up.
-/
theorem submitFrom_spec (r : Registry) (calls : List (Payload × Payload)) :
    (r.returned calls).length = (calls.filterMap reading?).length ∧
    (r.submitFrom calls).replacements = r.replacements ++ List.zipWith entry (r.returned calls) (calls.filterMap reading?) ∧
    (r.submitFrom calls).nextId = r.nextId + calls.length := by
  induction calls generalizing r with
  | nil => exact ⟨rfl, (List.append_nil _).symm, (Int.add_zero _).symm⟩
  | cons call calls ih =>
    have hcount : r.nextId + 1 + (calls.length : Int) = r.nextId + ((call :: calls).length : Nat) := by
      rw [List.length_cons]
      omega
    rcases submit_cases r call with ⟨item, hread, hsubmit⟩ | ⟨hread, problems, hsubmit⟩
    · obtain ⟨hlength, hitems, hnext⟩ := ih (r.register item.1 item.2).2
      rw [returned_cons, submitFrom_cons, hsubmit, List.filterMap_cons_some hread]
      refine ⟨congrArg (· + 1) hlength, ?_, hnext.trans hcount⟩
      rw [hitems, register, List.append_assoc]
      rfl
    · obtain ⟨hlength, hitems, hnext⟩ := ih { r with nextId := r.nextId + 1 }
      rw [returned_cons, submitFrom_cons, hsubmit, List.filterMap_cons_none hread]
      exact ⟨hlength, hitems, hnext.trans hcount⟩

/--
Whatever is called on an empty registry, the tokens that are returned differ and none of them is part of another. The
registry remembers what could be read, in the order of the calls and each with the token that was returned for it; a
text and a truth value are always read. The next number is one more than the number of calls.
-/
theorem submitAll_unambiguous (calls : List (Payload × Payload)) :
    (empty.returned calls).Nodup ∧
    (empty.returned calls).Pairwise (fun s t => ¬ s <:+: t ∧ ¬ t <:+: s) ∧
    (empty.returned calls).length = (calls.filterMap reading?).length ∧
    (submitAll calls).replacements =
      List.zipWith (fun token (omml, display) => ⟨token, omml, display⟩) (empty.returned calls) (calls.filterMap reading?) ∧
    (∀ omml display, reading? (.text omml, .boolean display) = some (omml, display)) ∧
    (submitAll calls).nextId = calls.length + 1 := by
  obtain ⟨numbers, hreturned, hrising, -⟩ := exists_returned_eq_map calls (r := empty) (n := 1) rfl
  have hapart : (empty.returned calls).Pairwise fun s t => ¬ s <:+: t ∧ ¬ t <:+: s := by
    rw [hreturned, List.pairwise_map]
    refine hrising.imp fun {m k} hlt => ⟨fun h => ?_, fun h => ?_⟩
    · exact absurd (eq_of_infix_token h) (Nat.ne_of_lt hlt)
    · exact absurd (eq_of_infix_token h) (Nat.ne_of_gt hlt)
  obtain ⟨hlength, hitems, hnext⟩ := submitFrom_spec empty calls
  have hdiffer : ∀ {s t : Text}, ¬ s <:+: t ∧ ¬ t <:+: s → s ≠ t := fun h heq => h.1 (heq ▸ List.infix_refl _)
  refine ⟨hapart.imp hdiffer, hapart, hlength, hitems, fun _ _ => rfl, ?_⟩
  calc (submitAll calls).nextId
      = empty.nextId + calls.length := hnext
    _ = calls.length + 1 := Int.add_comm 1 _

/-- A token grows with its number when six places no longer hold it. -/
example : token 999999 = "__MATH_999999__" ∧ token 1000000 = "__MATH_1000000__" := by decide

end EquationExport.Registry
