/-
What rounding leaves of the airtime at a candidate. An outcome takes away
the same double that it brought, but the sum was rounded in between, each
time by less than a unit in its last place. While the requests about a rate
are few and the airtime recorded there is small, all that together stays
below what counts as noise, and the sum is zero again once nothing is left
of it. With more it need not be.

The same bound shows that a candidate with bytes has a sum well above noise,
so a decision that finds bytes gives it a best case above zero.
-/
import LinkAdaptation.Proofs.Selector.Retraction

namespace LinkAdaptation

open LinkAdaptation.Random (Generator)
open Selector (Request liveAfter forgetsLive decidesOn liveAfter_concat
  decidesOn_concat decidesOn_concat_of_not_select mem_live_of_forgets
  filter_note_of_not_isAbout isFeedback_of_live)

variable {rate : Rate} {length : UInt16} {o : Outcome}
  {outcomes live : List Outcome} {request : Request} {requests : List Request}

-- ============================================================ airtimes

/-- The time of the payload alone is not negative, and not long. -/
theorem value?_payloadTime (hrate : 0 < rate.toNat) (length : UInt16) :
    ∃ u, value? (length.toFloat * 80.0 / rate.toFloat) = some u
      ∧ 0 ≤ u ∧ u ≤ 2 ^ 23 := by
  have hword : rate.toNat < 65536 := rate.toNat_lt
  have hlength : length.toNat < 65536 := length.toNat_lt
  have hone : (1 : Rat) ≤ rate.toNat := by exact_mod_cast hrate
  have hpos : (0 : Rat) < rate.toNat := by linarith
  have hvalue : ∀ word : UInt16, value? word.toFloat = some (word.toNat : Rat) := by
    intro word
    have hlt : word.toNat < 65536 := word.toNat_lt
    rw [toFloat_length]
    exact value?_natCast (by omega)
  have hfactor : value? 80.0 = some 80 := by decide +kernel
  -- the bits are a whole number, so their product is exact
  have hbits : (length.toNat : Rat) * 80 = (length.toNat * 80 : Nat) := by
    push_cast
    rfl
  have hnonneg : (0 : Rat) ≤ length.toNat * 80 := by positivity
  have hmost : (length.toNat : Rat) * 80 ≤ 2 ^ 23 := by
    rw [hbits]
    exact_mod_cast (by omega : length.toNat * 80 ≤ 2 ^ 23)
  have hproduct := value?_mul (hvalue length) hfactor
    (abs_nearest_lt (by rw [abs_of_nonneg hnonneg]; linarith))
  rw [hbits, nearest_of_representable (representable_natCast (by omega)),
    ← hbits] at hproduct
  have hquotient : (0 : Rat) ≤ length.toNat * 80 / rate.toNat := by positivity
  have hquotient' : (length.toNat : Rat) * 80 / rate.toNat ≤ (2 ^ 23 : Nat) := by
    push_cast
    exact (div_le_self hnonneg hone).trans hmost
  refine ⟨_, value?_div hproduct (hvalue rate) hpos.ne' (abs_nearest_lt ?_),
    nearest_nonneg hquotient, ?_⟩
  · rw [abs_of_nonneg hquotient]
    push_cast at hquotient'
    linarith
  · have hle := nearest_le (representable_natCast (by decide)) hquotient'
    exact_mod_cast hle

/-- At a positive rate a packet takes some time, no less than the space
between frames and not much more than its payload. -/
theorem value?_airtime (hrate : 0 < rate.toNat) (length : UInt16) :
    ∃ v, value? (airtime rate length) = some v ∧ 28 ≤ v ∧ v ≤ 2 ^ 24 := by
  obtain ⟨u, hu, hnonneg, hmost⟩ := value?_payloadTime hrate length
  obtain ⟨w, hspace, hw, hw'⟩ : ∃ w,
      value? (if isOldest rate then longSpace else shortSpace) = some w
        ∧ 28 ≤ w ∧ w ≤ 50 := by
    split
    · exact ⟨50, by decide +kernel, by norm_num, le_refl _⟩
    · exact ⟨28, by decide +kernel, le_refl _, by norm_num⟩
  refine ⟨_, value?_add hu hspace (abs_nearest_lt ?_), ?_, ?_⟩
  · rw [abs_of_nonneg (by linarith)]
    linarith
  · have hrep := representable_natCast (n := 28) (by decide)
    exact_mod_cast le_nearest hrep (by push_cast; linarith)
  · have hrep := representable_natCast (n := 2 ^ 24) (by decide)
    exact_mod_cast nearest_le hrep (by push_cast; linarith)

/-- The airtime of the outcomes at a rate: the sum, without rounding, of the
doubles that stand for their airtimes. -/
def airtimeOf (rate : Rate) (outcomes : List Outcome) : Rat :=
  ((outcomes.filter (atRate rate)).map fun o =>
    (value? (airtime rate o.length)).getD 0).sum

theorem airtimeOf_congr {other : List Outcome}
    (h : other.filter (atRate rate) = outcomes.filter (atRate rate)) :
    airtimeOf rate other = airtimeOf rate outcomes := by
  unfold airtimeOf
  rw [h]

/-- The order of the outcomes does not matter. -/
theorem airtimeOf_perm {reordered : List Outcome}
    (h : outcomes.Perm reordered) :
    airtimeOf rate outcomes = airtimeOf rate reordered :=
  ((h.filter _).map _).sum_eq

theorem airtimeOf_append (before after : List Outcome) :
    airtimeOf rate (before ++ after)
      = airtimeOf rate before + airtimeOf rate after := by
  unfold airtimeOf
  rw [List.filter_append, List.map_append, List.sum_append]

theorem airtimeOf_concat {v : Rat} (ho : atRate rate o = true)
    (hv : value? (airtime rate o.length) = some v) :
    airtimeOf rate (outcomes ++ [o]) = airtimeOf rate outcomes + v := by
  unfold airtimeOf
  simp [ho, hv]

theorem airtimeOf_erase {v : Rat} (ho : atRate rate o = true)
    (hv : value? (airtime rate o.length) = some v) (hmem : o ∈ outcomes) :
    airtimeOf rate outcomes = airtimeOf rate (outcomes.erase o) + v := by
  rw [airtimeOf_perm (List.perm_cons_erase hmem)]
  unfold airtimeOf
  simp [ho, hv, add_comm]

theorem airtimeOf_nonneg (hrate : 0 < rate.toNat) (outcomes : List Outcome) :
    0 ≤ airtimeOf rate outcomes := by
  refine List.sum_nonneg fun v hv => ?_
  obtain ⟨o, -, rfl⟩ := List.mem_map.1 hv
  obtain ⟨v, hvalue, hlow, -⟩ := value?_airtime hrate o.length
  rw [hvalue, Option.getD_some]
  linarith

/-- A single outcome takes more than its space. -/
theorem le_airtimeOf (hrate : 0 < rate.toNat) (ho : atRate rate o = true)
    (hmem : o ∈ outcomes) : 28 ≤ airtimeOf rate outcomes := by
  obtain ⟨v, hv, hlow, -⟩ := value?_airtime hrate o.length
  have hrest := airtimeOf_nonneg hrate (outcomes.erase o)
  rw [airtimeOf_erase ho hv hmem]
  linarith

theorem airtimeOf_eq_zero (h : ∀ o ∈ outcomes, ¬ atRate rate o = true) :
    airtimeOf rate outcomes = 0 := by
  unfold airtimeOf
  rw [List.filter_eq_nil_iff.2 h]
  rfl

-- ========================================================== requests

/-- What requests have counted, live or not. -/
def recordedIn (requests : List Request) : List Outcome :=
  requests.filterMap fun
    | .record o => if o.status.isFeedback then some o else none
    | _ => none

/-- How far rounding can have taken a sum of airtimes. -/
def slack (rate : Rate) (requests : List Request) : Rat :=
  requests.countP (Request.isAbout rate)
    * (airtimeOf rate (recordedIn requests) + 2) / 2 ^ 53

/-- Whether that is less than what counts as noise. The airtime is in
microseconds. -/
def IsSlight (rate : Rate) (requests : List Request) : Prop :=
  requests.countP (Request.isAbout rate)
    * (airtimeOf rate (recordedIn requests) + 2) ≤ 9000000

instance (rate : Rate) (requests : List Request) :
    Decidable (IsSlight rate requests) :=
  inferInstanceAs (Decidable (_ ≤ _))

theorem recordedIn_concat :
    recordedIn (requests ++ [request])
      = recordedIn requests ++ recordedIn [request] :=
  List.filterMap_append

theorem airtimeOf_recordedIn_le (hrate : 0 < rate.toNat)
    (requests : List Request) (request : Request) :
    airtimeOf rate (recordedIn requests)
      ≤ airtimeOf rate (recordedIn (requests ++ [request])) := by
  rw [recordedIn_concat, airtimeOf_append]
  exact le_add_of_nonneg_right (airtimeOf_nonneg hrate _)

theorem slack_nonneg (hrate : 0 < rate.toNat) (requests : List Request) :
    0 ≤ slack rate requests := by
  have hnonneg := airtimeOf_nonneg hrate (recordedIn requests)
  unfold slack
  positivity

theorem IsSlight.slack_le (h : IsSlight rate requests) :
    slack rate requests ≤ 9000000 / 2 ^ 53 := by
  unfold slack
  unfold IsSlight at h
  gcongr

/-- A request about the rate adds what one rounding can. -/
theorem slack_add_le (requests : List Request) (hrate : 0 < rate.toNat)
    (habout : request.isAbout rate = true) :
    slack rate requests
        + (airtimeOf rate (recordedIn (requests ++ [request])) + 2) / 2 ^ 53
      ≤ slack rate (requests ++ [request]) := by
  have hle := airtimeOf_recordedIn_le hrate requests request
  have hcount : (requests ++ [request]).countP (Request.isAbout rate)
      = requests.countP (Request.isAbout rate) + 1 := by
    rw [List.countP_append, List.countP_singleton, if_pos habout]
  have hmono : (requests.countP (Request.isAbout rate) : Rat)
        * (airtimeOf rate (recordedIn requests) + 2)
      ≤ requests.countP (Request.isAbout rate)
        * (airtimeOf rate (recordedIn (requests ++ [request])) + 2) := by
    gcongr
  unfold slack
  rw [hcount, ← add_div]
  push_cast
  gcongr
  linarith

/-- Another request adds nothing. -/
theorem slack_concat_of_not (habout : request.isAbout rate = false)
    (hrecorded : airtimeOf rate (recordedIn (requests ++ [request]))
      = airtimeOf rate (recordedIn requests)) :
    slack rate (requests ++ [request]) = slack rate requests := by
  unfold slack
  rw [hrecorded, List.countP_append, List.countP_singleton,
    if_neg (by simp [habout]), Nat.add_zero]

/-- What was recorded at a rate, a request about the rate recorded. -/
theorem isAbout_of_mem_recordedIn (hmem : o ∈ recordedIn requests)
    (ho : atRate rate o = true) :
    ∃ request ∈ requests, request.isAbout rate = true := by
  obtain ⟨request, hrequest, hrecorded⟩ := List.mem_filterMap.1 hmem
  refine ⟨request, hrequest, ?_⟩
  cases request with
  | record a =>
      dsimp only at hrecorded
      split at hrecorded
      · next hreports =>
          cases hrecorded
          simp [Request.isAbout, hreports, ho]
      · cases hrecorded
  | forget a => cases hrecorded
  | select now => cases hrecorded
  | reset => cases hrecorded

theorem airtimeOf_recordedIn_of_not (requests : List Request)
    (habout : request.isAbout rate = false) :
    airtimeOf rate (recordedIn (requests ++ [request]))
      = airtimeOf rate (recordedIn requests) := by
  rw [recordedIn_concat, airtimeOf_append, add_eq_left]
  refine airtimeOf_eq_zero fun o hmem ho => ?_
  obtain ⟨request', hrequest, htrue⟩ := isAbout_of_mem_recordedIn hmem ho
  rw [List.mem_singleton.1 hrequest, habout] at htrue
  cases htrue

theorem IsSlight.of_concat (hrate : 0 < rate.toNat)
    (h : IsSlight rate (requests ++ [request])) : IsSlight rate requests := by
  have hle := airtimeOf_recordedIn_le hrate requests request
  have hnonneg := airtimeOf_nonneg hrate (recordedIn requests)
  unfold IsSlight at h ⊢
  rw [List.countP_append] at h
  refine le_trans ?_ h
  push_cast
  gcongr
  exact le_add_of_nonneg_right (Nat.cast_nonneg _)

/-- One request about the rate already keeps the airtime small, and without
any there is none. -/
theorem IsSlight.airtimeOf_le (hrate : 0 < rate.toNat)
    (h : IsSlight rate requests) :
    airtimeOf rate (recordedIn requests) ≤ 9000000 := by
  by_cases hnone : requests.countP (Request.isAbout rate) = 0
  · rw [airtimeOf_eq_zero]
    · norm_num
    · intro o hmem ho
      obtain ⟨request, hrequest, habout⟩ := isAbout_of_mem_recordedIn hmem ho
      exact List.countP_eq_zero.1 hnone request hrequest habout
  · have hcount : (1 : Rat) ≤ requests.countP (Request.isAbout rate) := by
      exact_mod_cast Nat.one_le_iff_ne_zero.2 hnone
    have hnonneg := airtimeOf_nonneg hrate (recordedIn requests)
    unfold IsSlight at h
    nlinarith

-- ============================================================= drifting

theorem value?_noise :
    ∃ t, value? noise = some t ∧ 9000000 / 2 ^ 53 < t ∧ t < 1 := by
  obtain ⟨t, ht, h⟩ := Option.map_eq_some_iff.1 (by decide +kernel :
    (value? noise).map (fun t => decide (9000000 / 2 ^ 53 < t ∧ t < 1))
      = some true)
  exact ⟨t, ht, of_decide_eq_true h⟩

/-- One more rounding, by a request about the rate, of a sum that is close
to an airtime no longer than all that was recorded. -/
theorem exists_drifted (hrate : 0 < rate.toNat)
    (habout : request.isAbout rate = true)
    (hslight : IsSlight rate (requests ++ [request])) {x : Float}
    {q target : Rat}
    (hx : |nearest q| < 2 ^ (1024 : Int) → value? x = some (nearest q))
    (hclose : |q - target| ≤ slack rate requests) (hnonneg : 0 ≤ target)
    (hle : target ≤ airtimeOf rate (recordedIn (requests ++ [request]))) :
    ∃ w, value? x = some w
      ∧ |w - target| ≤ slack rate (requests ++ [request]) := by
  have hmore := slack_add_le requests hrate habout
  have hmost := hslight.airtimeOf_le hrate
  have hone : slack rate requests ≤ 1 :=
    (hslight.of_concat hrate).slack_le.trans (by norm_num)
  have hq : |q| ≤ airtimeOf rate (recordedIn (requests ++ [request])) + 1 := by
    rw [abs_le] at hclose ⊢
    constructor <;> linarith
  have hrounded := abs_nearest_sub_le_abs q
  have hstep : (|q| + 1) / 2 ^ 53
      ≤ (airtimeOf rate (recordedIn (requests ++ [request])) + 2) / 2 ^ 53 :=
    div_le_div_of_nonneg_right (by linarith) (by norm_num)
  refine ⟨nearest q, hx (abs_nearest_lt (hq.trans ?_)), ?_⟩
  · norm_num
    linarith
  · calc |nearest q - target| ≤ |nearest q - q| + |q - target| :=
          abs_sub_le _ _ _
      _ ≤ slack rate (requests ++ [request]) := by linarith

/-- What is close to the airtime of something live is not noise. -/
theorem not_isNoise {x : Float} {v : Rat} (hx : value? x = some v)
    (hv : 27 ≤ v) : isNoise x = false := by
  obtain ⟨t, ht, -, hlt⟩ := value?_noise
  unfold isNoise
  rw [decide_eq_false_iff_not, lt_iff_of_value? (value?_abs hx) ht, not_lt]
  exact (by linarith : t ≤ v).trans (le_abs_self v)

/-- What is close enough to nothing is. -/
theorem isNoise_of_le {x : Float} {v : Rat} (hx : value? x = some v)
    (hv : |v| ≤ 9000000 / 2 ^ 53) : isNoise x = true := by
  obtain ⟨t, ht, hlt, -⟩ := value?_noise
  unfold isNoise
  rw [decide_eq_true_iff, lt_iff_of_value? (value?_abs hx) ht]
  exact hv.trans_lt hlt

namespace SampleRate.Entry

variable {e e' : Entry}

/-- The sum of airtimes at a candidate, close to that of the live outcomes,
and a best case above zero if a decision found bytes. -/
structure Drifts (rate : Rate) (requests : List Request) (e : Entry) :
    Prop where
  live_le : airtimeOf rate (liveAfter requests)
    ≤ airtimeOf rate (recordedIn requests)
  total : ∃ v, value? e.totalAirtime = some v
    ∧ |v - airtimeOf rate (liveAfter requests)| ≤ slack rate requests
  bestCase : decidesOn rate [] requests = true → 0.0 < e.bestCase

theorem drifts_empty (rate : Rate) : Drifts rate [] {} := by
  refine ⟨le_refl _, ⟨0, value?_zero, ?_⟩, nofun⟩
  unfold slack
  simp [airtimeOf, Selector.liveAfter]

theorem Drifts.count (h : e.Drifts rate requests) (hrate : 0 < rate.toNat)
    (hat : o.rate = rate) (ho : o.status.isFeedback = true)
    (hcount : e.count o = .ok e')
    (hslight : IsSlight rate (requests ++ [.record o])) :
    e'.Drifts rate (requests ++ [.record o]) := by
  have hatRate : atRate rate o = true := decide_eq_true hat
  have habout : (Request.record o).isAbout rate = true := by
    simp [Request.isAbout, ho, hatRate]
  obtain ⟨a, ha, hlow, -⟩ := value?_airtime hrate o.length
  obtain ⟨hle, ⟨v, hv, hclose⟩, hbest⟩ := h
  obtain ⟨-, htotal, -, hsame⟩ := rest_of_count hcount
  have hlive : airtimeOf rate (liveAfter (requests ++ [.record o]))
      = airtimeOf rate (liveAfter requests) + a := by
    rw [liveAfter_concat]
    unfold Request.note
    dsimp only
    rw [if_pos ho, airtimeOf_concat hatRate ha]
  have hrecorded : airtimeOf rate (recordedIn (requests ++ [.record o]))
      = airtimeOf rate (recordedIn requests) + a := by
    have hsingle : recordedIn [.record o] = [o] := by
      simp [recordedIn, ho]
    rw [recordedIn_concat, hsingle, airtimeOf_concat hatRate ha]
  have hnonneg := airtimeOf_nonneg hrate (liveAfter requests)
  rw [← hat] at ha
  refine ⟨by linarith, ?_, ?_⟩
  · rw [hlive, htotal]
    refine exists_drifted hrate habout hslight (value?_add hv ha) ?_
      (by linarith) (by linarith)
    rw [add_sub_add_right_eq_sub]
    exact hclose
  · rw [decidesOn_concat_of_not_select rfl, hsame]
    exact hbest

theorem Drifts.uncount (h : e.Drifts rate requests) (hrate : 0 < rate.toNat)
    (hat : o.rate = rate) (ho : o.status.isFeedback = true)
    (hmem : o ∈ liveAfter requests)
    (hslight : IsSlight rate (requests ++ [.forget o])) :
    (e.uncount o).Drifts rate (requests ++ [.forget o]) := by
  have hatRate : atRate rate o = true := decide_eq_true hat
  have habout : (Request.forget o).isAbout rate = true := by
    simp [Request.isAbout, ho, hatRate]
  obtain ⟨a, ha, hlow, -⟩ := value?_airtime hrate o.length
  obtain ⟨hle, ⟨v, hv, hclose⟩, hbest⟩ := h
  obtain ⟨-, htotal, -, hsame⟩ := rest_uncount e o
  have hlive : airtimeOf rate (liveAfter requests)
      = airtimeOf rate (liveAfter (requests ++ [.forget o])) + a := by
    rw [liveAfter_concat]
    exact airtimeOf_erase hatRate ha hmem
  have hrecorded := airtimeOf_recordedIn_le hrate requests (.forget o)
  have hnonneg := airtimeOf_nonneg hrate (liveAfter (requests ++ [.forget o]))
  rw [← hat] at ha
  refine ⟨by linarith, ?_, ?_⟩
  · rw [htotal]
    refine exists_drifted hrate habout hslight (value?_sub hv ha) ?_ hnonneg
      (by linarith)
    rw [sub_sub, add_comm, ← hlive]
    exact hclose
  · rw [decidesOn_concat_of_not_select rfl, hsame]
    exact hbest

theorem exists_mem_of_bytesOf_pos
    (h : 0 < bytesOf (atRate rate) outcomes) :
    ∃ o ∈ outcomes, atRate rate o = true := by
  by_contra hnone
  refine h.ne' (bytesOf_eq_zero_iff.2 fun o hmem ho => ?_)
  exact absurd ⟨o, hmem, ho⟩ hnone

/-- With bytes and a sum that is not noise, a decision computes a best case
above zero. -/
theorem bestCase_pos (hsent : Counted (atRate rate) live e.sent e.bytesSent)
    (hbytes : 0 < bytesOf (atRate rate) live) {v : Rat}
    (hv : value? e.totalAirtime = some v) (hlow : 27 ≤ v)
    (hmost : v ≤ 2 ^ 100) : 0.0 < e.refresh.bestCase := by
  have hlt := Counted.bytesOf_lt hsent.count_lt
  have hsound := not_isNoise hv hlow
  rw [bestCase_refresh_eq, hsent.settle_eq, hsent.bytes_eq, hsound,
    settle_of_not_isNoise hsound,
    decide_eq_true ((zero_lt_toFloat_iff hlt).2 hbytes)]
  show 0.0 < e.totalAirtime / (bytesOf (atRate rate) live).toFloat
  have hone : (1 : Rat) ≤ bytesOf (atRate rate) live := by
    exact_mod_cast hbytes
  have hpos : (0 : Rat) < bytesOf (atRate rate) live := by linarith
  have hnonneg : (0 : Rat) ≤ v / bytesOf (atRate rate) live := by
    have : 0 ≤ v := by linarith
    positivity
  have hquotient := value?_div hv (value?_whole hlt) hpos.ne'
    (abs_nearest_lt (by
      rw [abs_of_nonneg hnonneg]
      exact (div_le_self (by linarith) hone).trans hmost))
  rw [lt_iff_of_value? value?_zero hquotient]
  -- there are fewer bytes than a double can count
  have hlimit : (bytesOf (atRate rate) live : Rat) ≤ 2 ^ 53 := by
    unfold wholeLimit at hlt
    exact_mod_cast (by omega : bytesOf (atRate rate) live ≤ 2 ^ 53)
  have hstep : (1 : Rat) / 2 ^ 53 ≤ v / bytesOf (atRate rate) live := by
    rw [div_le_div_iff₀ (by norm_num) hpos]
    nlinarith
  have hrep : Representable (1 / 2 ^ 53) :=
    ⟨1, -53, by decide, by decide, by norm_num⟩
  exact lt_of_lt_of_le (by norm_num) (le_nearest hrep hstep)

/-- A decision clears the sum if it is noise, which it is not while something
is live; then there is a best case if there are bytes. -/
theorem Drifts.refresh (h : e.Drifts rate requests) (hrate : 0 < rate.toNat)
    (haccounts : e.Accounts rate (liveAfter requests)) {now : Instant}
    (hslight : IsSlight rate (requests ++ [.select now])) (lossRun : Nat) :
    Drifts rate (requests ++ [.select now]) { e with lossRun }.refresh := by
  have habout : (Request.select now).isAbout rate = false := rfl
  obtain ⟨hle, ⟨v, hv, hclose⟩, hbest⟩ := h
  have hrecorded := airtimeOf_recordedIn_of_not requests habout
  have hlive : liveAfter (requests ++ [Request.select now])
      = liveAfter requests := by
    rw [liveAfter_concat]
    rfl
  have hslack := slack_concat_of_not habout hrecorded
  have hone : slack rate requests ≤ 1 :=
    (hslight.of_concat hrate).slack_le.trans (by norm_num)
  -- whatever is live at the rate takes more than all the noise
  have hloud : ∀ o ∈ liveAfter requests, atRate rate o = true → 27 ≤ v := by
    intro o hmem ho
    have hlow := le_airtimeOf hrate ho hmem
    rw [abs_le] at hclose
    linarith
  refine ⟨by rw [hlive, hrecorded]; exact hle, ?_, ?_⟩
  · rw [hlive, hslack]
    show ∃ v, value? (settle e.totalAirtime) = some v ∧ _
    unfold settle
    split
    · next hnoise =>
        have hnone : airtimeOf rate (liveAfter requests) = 0 := by
          refine airtimeOf_eq_zero fun o hmem ho => ?_
          rw [not_isNoise hv (hloud o hmem ho)] at hnoise
          cases hnoise
        refine ⟨0, value?_zero, ?_⟩
        rw [hnone, sub_zero, abs_zero]
        exact slack_nonneg hrate requests
    · exact ⟨v, hv, hclose⟩
  · intro hdecided
    rw [decidesOn_concat, Bool.or_eq_true] at hdecided
    by_cases hbytes : 0 < bytesOf (atRate rate) (liveAfter requests)
    · obtain ⟨o, hmem, ho⟩ := exists_mem_of_bytesOf_pos hbytes
      have hmost := (hslight.of_concat hrate).airtimeOf_le hrate
      have hv' : v ≤ 2 ^ 100 := by
        rw [abs_le] at hclose
        norm_num
        linarith
      exact bestCase_pos (e := { e with lossRun }) haccounts.sent hbytes hv
        (hloud o hmem ho) hv'
    · have hsame := bestCase_refresh (e := { e with lossRun }) haccounts.sent
        hbytes
      rw [hsame]
      refine hbest (hdecided.resolve_right ?_)
      simpa [Request.isSelect] using hbytes

theorem Drifts.pass (h : e.Drifts rate requests)
    (hselect : request.isSelect = false) (hreset : request ≠ .reset)
    (habout : request.isAbout rate = false) :
    e.Drifts rate (requests ++ [request]) := by
  obtain ⟨hle, htotal, hbest⟩ := h
  have hrecorded := airtimeOf_recordedIn_of_not requests habout
  have hlive : airtimeOf rate (liveAfter (requests ++ [request]))
      = airtimeOf rate (liveAfter requests) := by
    rw [liveAfter_concat]
    exact airtimeOf_congr (filter_note_of_not_isAbout habout hreset
      (isFeedback_of_live requests))
  refine ⟨by rw [hlive, hrecorded]; exact hle, ?_, ?_⟩
  · rw [hlive, slack_concat_of_not habout hrecorded]
    exact htotal
  · rw [decidesOn_concat_of_not_select hselect]
    exact hbest

theorem Drifts.step (h : e.Drifts rate requests) (hrate : 0 < rate.toNat)
    (haccounts : e.Accounts rate (liveAfter requests))
    (hstep : Step rate request e e')
    (hforgets : forgetsLive [] (requests ++ [request]) = true)
    (hslight : IsSlight rate (requests ++ [request])) :
    e'.Drifts rate (requests ++ [request]) := by
  cases hstep with
  | count hat ho hcount => exact h.count hrate hat ho hcount hslight
  | uncount hat ho =>
      exact h.uncount hrate hat ho (mem_live_of_forgets ho hforgets) hslight
  | refresh lossRun => exact h.refresh hrate haccounts hslight lossRun
  | pass hselect hreset habout => exact h.pass hselect hreset habout

end SampleRate.Entry

-- ============================================================= results

namespace SampleRate

variable {rates : RateSet} {s s' : SampleRate rates} {now : Instant}
  {chosen : Rate} {order : BootstrapOrder} {generator : Generator}
  {made : Instant}

/-- The sum of airtimes is close to that of the live outcomes at the end of
a run, if there was little to round. -/
theorem drifts_run (i : rates.Index) (hrate : 0 < (rates.get i).toNat)
    (hresets : .reset ∉ requests)
    (hforgets : forgetsLive [] requests = true)
    (hslight : IsSlight (rates.get i) requests)
    (hrun : (start rates order generator made).run requests = .ok s) :
    (s.table.get i).Drifts (rates.get i) requests := by
  have hkept := entry_run (P := fun done e => forgetsLive [] done = true →
    IsSlight (rates.get i) done →
    e.Accounts (rates.get i) (liveAfter done)
      ∧ e.Drifts (rates.get i) done) i
    (fun _ _ => ⟨Entry.accounts_empty _, Entry.drifts_empty _⟩) hresets hrun ?_
  · exact (hkept.2 hforgets hslight).2
  · intro done request e e' h hstep hforgets hslight
    obtain ⟨haccounts, hdrifts⟩ :=
      h (forgetsLive_of_concat hforgets) (hslight.of_concat hrate)
    exact ⟨haccounts.step hstep hforgets,
      hdrifts.step hrate haccounts hstep hforgets hslight⟩

/-- Once all outcomes at a candidate are forgotten, the next decision finds
it with the counts, the byte sums and the average of an untried one. It has
no best case either if no decision was made while it had bytes; but if one
was, the best case stays. The sum of airtimes is zero again as long as
rounding stays below noise. -/
theorem forgotten_candidate_keeps_best_case (order : BootstrapOrder)
    (generator : Generator) (made : Instant) (i : rates.Index)
    (hresets : .reset ∉ requests)
    (hforgets : forgetsLive [] requests = true)
    (hgone : ∀ o ∈ liveAfter requests, o.rate ≠ rates.get i)
    (hrun : (start rates order generator made).run requests = .ok s)
    (hselect : s.select now = .ok (s', chosen)) :
    let e := s'.table.get i
    { e with lossRun := 0, totalAirtime := 0.0, bestCase := 0.0 } = ({} : Entry)
      ∧ (decidesOn (rates.get i) [] requests = false → e.bestCase = 0.0)
      ∧ (0 < (rates.get i).toNat → IsSlight (rates.get i) requests →
        e.totalAirtime = 0.0
          ∧ (decidesOn (rates.get i) [] requests = true →
            0.0 < e.bestCase)) := by
  obtain ⟨hsettled, haccounts, hunseen⟩ :=
    accounts_run i hresets hforgets hrun
  have hgone' : ∀ o ∈ liveAfter requests, ¬ atRate (rates.get i) o = true :=
    fun o ho hat => hgone o ho (of_decide_eq_true hat)
  have hempty : (s.table.get i).Accounts (rates.get i) [] :=
    haccounts.of_filter_eq (List.filter_eq_nil_iff.2 hgone').symm
  -- the decision can be taken for one that computes
  obtain ⟨lossRun, hrefreshed⟩ : ∃ lossRun,
      s'.table.get i = { s.table.get i with lossRun }.refresh := by
    obtain ⟨hroom, hdecides, -⟩ := select_eq_ok.1 hselect
    have hstep := entry_step hsettled (by nofun)
      (handle_select_eq_ok.2 ⟨hroom, hdecides⟩) i
    generalize s'.table.get i = e at hstep
    cases hstep with
    | pass hselect _ _ => cases hselect
    | refresh lossRun => exact ⟨lossRun, rfl⟩
  have hkept := Entry.bestCase_refresh (e := { s.table.get i with lossRun })
    hempty.sent (Nat.lt_irrefl 0)
  rw [hrefreshed]
  refine ⟨Entry.refresh_of_empty ⟨hempty.sent, hempty.acked, hempty.naked,
    hempty.timedOut⟩, fun hnone => hkept.trans (hunseen hnone), ?_⟩
  intro hrate hslight
  obtain ⟨-, ⟨v, hv, hclose⟩, hbest⟩ :=
    drifts_run i hrate hresets hforgets hslight hrun
  rw [airtimeOf_eq_zero hgone', sub_zero] at hclose
  have hnoise := isNoise_of_le hv (hclose.trans hslight.slack_le)
  constructor
  · show settle (s.table.get i).totalAirtime = 0.0
    unfold settle
    rw [if_pos hnoise]
  · intro hdecided
    rw [hkept]
    exact hbest hdecided

/-- Of two candidates whose outcomes are forgotten, the one that a decision
found with bytes keeps a best case, and the other is as it was made. -/
theorem forgotten_candidate_keeps_best_case_decided :
    let rates : RateSet := ⟨#[10, 20], by decide, by decide⟩
    let fresh := start rates .lowestFirst (.ofSeed 0) ⟨0⟩
    let sent (rate : Rate) : Outcome := ⟨⟨0⟩, 0, rate, 1000, .acked⟩
    let requests : List Request :=
      [ .record (sent 10), .forget (sent 10), .record (sent 20), .select ⟨0⟩
      , .forget (sent 20) ]
    .reset ∉ requests ∧ forgetsLive [] requests = true
      ∧ liveAfter requests = []
      ∧ ∃ s s' chosen, fresh.run requests = .ok s
        ∧ s.select ⟨0⟩ = .ok (s', chosen)
        ∧ (s'.table.get rates.top).totalAirtime = 0.0
        ∧ 0.0 < (s'.table.get rates.top).bestCase
        ∧ (s'.table.get rates.bottom).bestCase = 0.0 := by
  intro rates fresh sent requests
  have hresets : Request.reset ∉ requests := by decide
  have hforgets : forgetsLive [] requests = true := by decide
  have hlive : liveAfter requests = [] := by decide
  have hgone : ∀ i : rates.Index, ∀ o ∈ liveAfter requests,
      o.rate ≠ rates.get i := by
    rw [hlive]
    exact fun _ => nofun
  have hslight : IsSlight (rates.get rates.top) requests := by decide +kernel
  obtain ⟨s, hrun, hroom⟩ := exists_run fresh requests
    (fun s => s.decisions + 1 < counterLimit) (by decide +kernel)
  obtain ⟨s', hselect, -⟩ := s.exists_select ⟨0⟩ hroom
  obtain ⟨-, -, htop⟩ := forgotten_candidate_keeps_best_case _ _ _ rates.top
    hresets hforgets (hgone _) hrun hselect
  obtain ⟨-, hbottom, -⟩ := forgotten_candidate_keeps_best_case _ _ _
    rates.bottom hresets hforgets (hgone _) hrun hselect
  obtain ⟨hzero, hbest⟩ := htop (by decide) hslight
  exact ⟨hresets, hforgets, hlive, s, s', _, hrun, hselect, hzero,
    hbest (by decide), hbottom (by decide)⟩

/-- The best case that stays keeps a candidate from being sampled that would
be if it were untried; and many long packets at a low rate leave more of
their airtime than noise. -/
theorem forgotten_candidate_not_untried :
    let rates : RateSet := ⟨#[10, 20], by decide, by decide⟩
    let fresh := start rates .lowestFirst (.ofSeed 1) ⟨0⟩
    let short : Outcome := ⟨⟨0⟩, 1, 20, 1, .acked⟩
    let touched : List Request :=
      [.record short, .select ⟨0⟩, .forget short]
    let later : List Request :=
      .record ⟨⟨0⟩, 2, 10, 1000, .acked⟩ :: List.replicate 9 (.select ⟨0⟩)
    let slow : RateSet := ⟨#[3], by decide, by decide⟩
    let long (length : UInt16) : Outcome := ⟨⟨0⟩, 0, 3, length, .acked⟩
    let lengths : List UInt16 := [63139, 65174, 61431, 63254, 61866]
    liveAfter touched = []
      ∧ (∃ s, fresh.run (touched ++ [.select ⟨0⟩]) = .ok s
        ∧ (s.table.get rates.top).bestCase ≠ 0.0)
      ∧ (∃ s, fresh.run (touched ++ later) = .ok s ∧ s.currentRate = 10)
      ∧ (∃ s, fresh.run (.select ⟨0⟩ :: later) = .ok s ∧ s.currentRate = 20)
      ∧ ∃ s, (start slow .lowestFirst (.ofSeed 1) ⟨0⟩).run
            (lengths.map (fun n => .record (long n))
              ++ lengths.map (fun n => .forget (long n)) ++ [.select ⟨0⟩])
          = .ok s
        ∧ (s.table.get slow.bottom).totalAirtime ≠ 0.0 := by
  intro rates fresh short touched later slow long lengths
  refine ⟨by decide, ?_, ?_, ?_, ?_⟩
  · exact exists_run _ _ (fun s => (s.table.get rates.top).bestCase ≠ 0.0)
      (by decide +kernel)
  · exact exists_run _ _ (fun s => s.currentRate = 10) (by decide +kernel)
  · exact exists_run _ _ (fun s => s.currentRate = 20) (by decide +kernel)
  · exact exists_run _ _
      (fun s => (s.table.get slow.bottom).totalAirtime ≠ 0.0)
      (by decide +kernel)

end SampleRate

end LinkAdaptation
