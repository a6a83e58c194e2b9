/-
Sized batches keep to their limits. Under limits that a configuration can
ask for, and for every estimate of the loss, no step of the sizing fails:
a batch is refused for the reasons that are part of its occasion, and
otherwise has at least one data packet, no more than allowed, and no fewer
packets than data packets.

Two roundings carry this. A batch spread over a loss is a quotient by a
number of at most one, so it never has fewer packets than it started with.
And a number of packets cut down by a share is rounded down from a product
that is no larger than the number itself.
-/
import LinkAdaptation.Proofs.Batch.Spread
import LinkAdaptation.Proofs.Checked

namespace LinkAdaptation.Sizer

variable {s : Sizer} {k room : Nat} {loss : Float}

/-- Limits that leave room for redundancy. -/
structure Roomy (s : Sizer) : Prop where
  maxK_pos : 1 ≤ s.maxK
  maxK_lt : s.maxK < s.fieldSize

/-- Such limits, in a field of 32 bits. -/
structure Proper (s : Sizer) : Prop extends Roomy s where
  fieldSize_le : s.fieldSize ≤ 4294967296

theorem Proper.maxK_lt_signed (hs : s.Proper) :
    s.maxK < 9223372036854775808 := by
  have := hs.maxK_lt
  have := hs.fieldSize_le
  omega

theorem Proper.maxK_lt_whole (hs : s.Proper) : s.maxK < 9007199254740992 := by
  have := hs.maxK_lt
  have := hs.fieldSize_le
  omega

theorem Proper.fieldSize_le_word (hs : s.Proper) : s.fieldSize ≤ wordMax :=
  hs.fieldSize_le.trans (by decide)

/-- What a batch of at most `most` packets keeps to. -/
structure Keeps (s : Sizer) (most : Nat) (size : BatchSize) : Prop where
  k_pos : 1 ≤ size.k
  k_le : size.k ≤ s.maxK
  k_le_n : size.k ≤ size.n
  n_le : size.n ≤ most
  plain : s.useCoding = false → size.n = size.k

-- ======================================================== handing out

/-- A refused size, or one of the bounds that sizing can break. -/
def Expected (failure : Failure) : Prop :=
  ∀ fault, failure = .broken fault → fault ∈ [.sizeOverflow, .sizeOutOfBounds]

theorem expected_refused (error : Error) : Expected (.refused error) := by
  intro fault h
  cases h

theorem expected_broken {fault : Fault}
    (h : fault ∈ [.sizeOverflow, .sizeOutOfBounds]) :
    Expected (.broken fault) := by
  intro other heq
  cases heq
  exact h

theorem needed?_upholds (k : Nat) (loss : Float) :
    Upholds (needed? k loss) (fun _ => True) (· = .sizeOverflow) := by
  unfold needed?
  split
  · split
    · exact trivial
    · exact rfl
  · exact trivial

/-- Without coding, there are as many packets as data packets. -/
theorem Keeps.plain_of {most : Nat} (hk : 1 ≤ k) (hle : k ≤ s.maxK)
    (hmost : k ≤ most) : s.Keeps most ⟨k, k⟩ :=
  ⟨hk, hle, le_refl k, hmost, fun _ => rfl⟩

/-- A coded size that is handed out was held against its limits. -/
theorem holding_keeps {promise : Bool} {n most : Nat} (hk : 1 ≤ k)
    (hpromise : promise = true → k ≤ s.maxK ∧ k ≤ n ∧ n ≤ most)
    (coding : s.useCoding = true) :
    Upholds (holding promise ⟨k, n⟩)
      (fun size => size.k = k ∧ s.Keeps most size) Expected := by
  cases promise with
  | true =>
      obtain ⟨hle, hkn, hn⟩ := hpromise rfl
      refine ⟨rfl, hk, hle, hkn, hn, ?_⟩
      intro plain
      rw [coding] at plain
      cases plain
  | false => exact expected_broken (List.mem_cons_of_mem _ List.mem_cons_self)

theorem data_keeps (hs : s.Roomy) (loss : Float)
    (coherenceUs packetUs : UInt32) :
    Upholds (s.data loss coherenceUs packetUs) (s.Keeps s.fieldSize)
      Expected := by
  obtain ⟨hk, hkf⟩ := hs
  unfold data
  dsimp only
  split
  · exact expected_refused _
  · next hroom =>
      split
      · exact .plain_of (by omega) (Nat.min_le_right _ _) (by omega)
      · next coding =>
          rw [Bool.not_eq_true', Bool.not_eq_false] at coding
          refine (holding_keeps (by omega) (fun promise => ?_) coding).imp
            fun _ h => h.2
          simp only [Bool.and_eq_true, decide_eq_true_eq] at promise
          exact ⟨promise.1.1, promise.1.2, promise.2⟩

theorem timeout_keeps (hs : s.Roomy) (loss : Float) (k : Nat) :
    Upholds (s.timeout loss k)
      (fun size => size.k = k ∧ s.Keeps s.fieldSize size) Expected := by
  obtain ⟨hk, hkf⟩ := hs
  unfold timeout
  split
  · exact expected_refused _
  · next hlimits =>
      split
      · exact ⟨rfl, .plain_of (by omega) (by omega) (by omega)⟩
      · next coding =>
          rw [Bool.not_eq_true', Bool.not_eq_false] at coding
          rw [if_neg (by omega)]
          dsimp only
          split
          · next fault hfault =>
              refine expected_broken ?_
              rw [(needed?_upholds k loss).of_eq_error hfault]
              exact List.mem_cons_self
          · refine holding_keeps (by omega) (fun promise => ?_) coding
            simp only [Bool.and_eq_true, decide_eq_true_eq] at promise
            exact ⟨by omega, promise⟩

theorem retransmission_keeps (s : Sizer) (loss : Float) (k : Nat)
    (coherenceUs packetUs : UInt32) :
    Upholds (s.retransmission loss k coherenceUs packetUs)
      (fun size => size.k = k
        ∧ s.Keeps (min (fit coherenceUs packetUs) s.fieldSize) size)
      Expected := by
  unfold retransmission
  dsimp only
  split
  · exact expected_refused _
  · next hlimits =>
      split
      · exact ⟨rfl, .plain_of (by omega) (by omega) (by omega)⟩
      · next coding =>
          rw [Bool.not_eq_true', Bool.not_eq_false] at coding
          split
          · next fault hfault =>
              refine expected_broken ?_
              rw [(needed?_upholds k loss).of_eq_error hfault]
              exact List.mem_cons_self
          · refine holding_keeps (by omega) (fun promise => ?_) coding
            simp only [Bool.and_eq_true, decide_eq_true_eq] at promise
            exact ⟨by omega, promise⟩

theorem holding_of (size : BatchSize) {promise : Bool} (h : promise = true) :
    holding promise size = .ok size := by
  rw [h]
  rfl

theorem holding_eq_ok {size held : BatchSize} {promise : Bool}
    (h : holding promise held = .ok size) : promise = true ∧ held = size := by
  unfold holding at h
  split at h
  · next hpromise =>
      cases h
      exact ⟨hpromise, rfl⟩
  · cases h

-- ========================================================= fresh data

theorem fit_lt (coherenceUs packetUs : UInt32) :
    fit coherenceUs packetUs < 4294967296 :=
  lt_of_le_of_lt (Nat.div_le_self _ _) coherenceUs.toNat_lt

/-- The share that redundancy leaves to the data. -/
theorem value?_kept (hl : isEstimate loss = true) :
    ∃ c, value? (1.0 - redundancy loss dataStart) = some c
      ∧ -1 ≤ c ∧ c ≤ 1 := by
  obtain ⟨r, hr, low, high⟩ :=
    value?_redundancy dataStart hl rfl
  refine ⟨_, value?_sub value?_one hr (abs_nearest_lt ?_),
    le_nearest representable_one.neg (by linarith),
    nearest_le representable_one (by linarith)⟩
  refine (abs_le.2 ⟨?_, ?_⟩ : |1 - r| ≤ 1).trans (by norm_num)
  · linarith
  · linarith

variable {kept : Float} {c : Rat}

theorem value?_free (hroom : room < 4294967296) (hc : value? kept = some c)
    (low : -1 ≤ c) (high : c ≤ 1) :
    value? (room.toFloat * kept) = some (nearest (room * c)) := by
  refine value?_mul (value?_natCast (by omega)) hc (abs_nearest_lt ?_)
  have hroom' : (room : Rat) ≤ 4294967296 := by exact_mod_cast hroom.le
  rw [abs_mul, abs_of_nonneg (Nat.cast_nonneg room)]
  calc (room : Rat) * |c| ≤ room * 1 :=
        mul_le_mul_of_nonneg_left (abs_le.2 ⟨low, high⟩) (Nat.cast_nonneg _)
    _ ≤ 2 ^ 100 := by
        rw [mul_one]
        exact hroom'.trans (by norm_num)

/-- The packets left to the data are no more than there are. -/
theorem free_le (hroom : room < 4294967296) (hc : value? kept = some c)
    (low : -1 ≤ c) (high : c ≤ 1) :
    floorInt (room.toFloat * kept) ≤ room := by
  have hnearest : nearest (room * c) ≤ room :=
    nearest_le (representable_natCast (by omega))
      (mul_le_of_le_one_right (Nat.cast_nonneg room) high)
  have hlt : floorInt (room.toFloat * kept) < (room : Int) + 1 := by
    have hlimit : signedLimit = 9223372036854775808 := rfl
    refine (floorInt_lt_iff (value?_free hroom hc low high) (by omega)
      (by omega)).2 ?_
    push_cast
    linarith
  omega

/-- Data packets cut to the limit are sent as no fewer, and as no more than
there was room for. That they had to be cut shows the share to be positive,
and the quotient to be less than the packets there are. -/
theorem capped_within (hroom : room < 4294967296) (hc : value? kept = some c)
    (low : -1 ≤ c) (high : c ≤ 1) (hk : k < 4294967296)
    (hcut : (k : Int) < floorInt (room.toFloat * kept)) :
    k ≤ ceilSize (Float.ofInt k / kept)
      ∧ ceilSize (Float.ofInt k / kept) ≤ room := by
  have hfree : ((k + 1 : Int) : Rat) ≤ nearest (room * c) :=
    (le_floorInt_iff (value?_free hroom hc low high)
      (by unfold signedLimit; omega) (by unfold signedLimit; omega)).1 hcut
  have hprod : (k : Rat) < room * c := by
    by_contra hle
    have := nearest_le (representable_natCast (by omega)) (not_lt.1 hle)
    push_cast at hfree
    linarith
  have hk0 : (0 : Rat) ≤ k := Nat.cast_nonneg k
  have hroom0 : (0 : Rat) ≤ room := Nat.cast_nonneg room
  have hcpos : 0 < c := by
    by_contra hle
    have := mul_nonpos_of_nonneg_of_nonpos hroom0 (not_lt.1 hle)
    linarith
  have hfits : (k : Rat) / c ≤ room := (div_le_iff₀ hcpos).2 hprod.le
  have hroom' : (room : Rat) ≤ 4294967296 := by exact_mod_cast hroom.le
  have hvalue : value? (Float.ofInt k / kept) = some (nearest (k / c)) := by
    refine value?_div (value?_natCast (by omega)) hc hcpos.ne'
      (abs_nearest_lt ?_)
    rw [abs_of_nonneg (div_nonneg hk0 hcpos.le)]
    exact hfits.trans (hroom'.trans (by norm_num))
  have hquot : (k : Rat) ≤ nearest (k / c) := by
    refine le_nearest (representable_natCast (by omega)) ?_
    rw [le_div_iff₀ hcpos]
    exact mul_le_of_le_one_right hk0 high
  have hword : wordMax = 18446744073709551615 := rfl
  exact ⟨le_ceilSize hvalue (by omega) hquot,
    (ceilSize_le_iff hvalue (by omega)).2
      (nearest_le (representable_natCast (by omega)) hfits)⟩

/-- Fresh data as it is drafted: the data packets that the redundancy leaves
room for, in as many packets as fit; or the limit, in what it needs. -/
def draft (s : Sizer) (loss : Float) (room : Nat) : Int × Nat :=
  let kept := 1.0 - redundancy loss dataStart
  let limit := signedWord s.maxK
  let free := floorInt (room.toFloat * kept)
  if limit < free then (limit, ceilSize (Float.ofInt limit / kept))
  else (free, room)

/-- Data packets of a batch of `n`, lowered until one packet more is sent
than the loss asks for. -/
def tighten (loss : Float) (n : Nat) (k : Int) : Int :=
  if asksExtra loss then min k (floorInt (n.toFloat * (1.0 - loss)) - 1)
  else k

/-- The coded batch that a draft of fresh data leads to. -/
def coded (s : Sizer) (loss : Float) (room : Nat) : BatchSize :=
  let n := min (s.draft loss room).2 s.fieldSize
  { k := (max (tighten loss n (s.draft loss room).1) 1).toNat, n }

variable {coherenceUs packetUs : UInt32}

theorem data_coded (coding : s.useCoding = true)
    (hroom : fit coherenceUs packetUs ≠ 0) :
    s.data loss coherenceUs packetUs
      = let size := s.coded loss (fit coherenceUs packetUs)
        holding (size.k ≤ s.maxK && size.k ≤ size.n && size.n ≤ s.fieldSize)
          size := by
  unfold data
  dsimp only
  rw [if_neg hroom, coding, if_neg (by decide)]
  rfl

theorem tighten_le (loss : Float) (n : Nat) (k : Int) : tighten loss n k ≤ k := by
  unfold tighten
  split
  · exact Int.min_le_left _ _
  · exact Int.le_refl k

/-- What a draft keeps to. -/
structure Drafted (s : Sizer) (room : Nat) (first : Int × Nat) : Prop where
  k_le : first.1 ≤ s.maxK
  k_le_n : first.1 ≤ first.2
  n_pos : 1 ≤ first.2
  n_le : first.2 ≤ room

/-- A draft keeps to its limits as long as the largest number of data
packets is spelled without a sign. Only a limit below the packets that fit
is ever cut to, so it is exact as a double. -/
theorem draft_drafted (hk : 1 ≤ s.maxK) (hword : s.maxK < 9223372036854775808)
    (hl : isEstimate loss = true) (hroom : 1 ≤ room)
    (hlt : room < 4294967296) : s.Drafted room (s.draft loss room) := by
  obtain ⟨c, hc, low, high⟩ := value?_kept hl
  have hfree := free_le hlt hc low high
  unfold draft
  dsimp only
  rw [signedWord_of_lt hword]
  split
  · next hcut =>
      obtain ⟨hle, hge⟩ := capped_within hlt hc low high (by omega) hcut
      exact ⟨Int.le_refl _, Int.ofNat_le.2 hle, hk.trans hle, hge⟩
  · next hcut =>
      exact ⟨not_lt.1 hcut, hfree, hroom, Nat.le_refl room⟩

/-- A batch of fresh data that can be sent is sized. -/
theorem data_ok (hs : s.Roomy)
    (hword : s.useCoding = true → s.maxK < 9223372036854775808)
    (hl : isEstimate loss = true) (hroom : fit coherenceUs packetUs ≠ 0) :
    ∃ size, s.data loss coherenceUs packetUs = .ok size := by
  obtain ⟨hk, hkf⟩ := hs
  by_cases coding : s.useCoding = true
  · obtain ⟨hlimit, hle, hn, -⟩ := draft_drafted hk (hword coding) hl
      (Nat.pos_of_ne_zero hroom) (fit_lt coherenceUs packetUs)
    have htight := tighten_le loss
      (min (s.draft loss (fit coherenceUs packetUs)).2 s.fieldSize)
      (s.draft loss (fit coherenceUs packetUs)).1
    have hkeeps : (s.coded loss (fit coherenceUs packetUs)).k ≤ s.maxK
        ∧ (s.coded loss (fit coherenceUs packetUs)).k
          ≤ (s.coded loss (fit coherenceUs packetUs)).n
        ∧ (s.coded loss (fit coherenceUs packetUs)).n ≤ s.fieldSize := by
      unfold coded
      dsimp only
      omega
    rw [data_coded coding hroom]
    refine ⟨_, holding_of _ ?_⟩
    simp [hkeeps.1, hkeeps.2]
  · rw [Bool.not_eq_true] at coding
    unfold data
    dsimp only
    rw [if_neg hroom, coding, if_pos (by decide)]
    exact ⟨_, rfl⟩

-- ============================================================ recovery

/-- The share of `f` packets that `k` of them are, as it is rounded. -/
def filled (k f : Nat) : Rat := nearest (k / nearest f)

/-- Packets that a field has room for are a share of it. -/
theorem share_of_field {f : Nat} (hk : 1 ≤ k) (hle : k ≤ 9007199254740992)
    (hkf : k ≤ f) : 0 < nearest f ∧ 0 ≤ (k : Rat) / nearest f
      ∧ (k : Rat) / nearest f ≤ 1 := by
  have hk1 : (1 : Rat) ≤ k := by exact_mod_cast hk
  have hfield : (k : Rat) ≤ nearest f :=
    le_nearest (representable_natCast_of_le hle) (by exact_mod_cast hkf)
  have hf0 : 0 < nearest f := by linarith
  exact ⟨hf0, div_nonneg (Nat.cast_nonneg k) hf0.le,
    (div_le_one hf0).2 hfield⟩

/-- The redundancy that a field has room for beside `k` data packets. -/
def headroom (s : Sizer) (k : Nat) : Float :=
  1.0 - k.toFloat / (s.fieldSize - 1).toFloat

/-- What a field has room for is a share. -/
theorem value?_headroom (hs : s.Roomy) (hword : s.fieldSize ≤ wordMax)
    (hk : 1 ≤ k) (hle : k ≤ s.maxK) (hwhole : k ≤ 9007199254740992) :
    ∃ q, value? (s.headroom k) = some q ∧ 0 ≤ q ∧ q ≤ 1
      ∧ q = nearest (1 - filled k (s.fieldSize - 1)) := by
  have hmax : wordMax = 18446744073709551615 := rfl
  have hkf := hs.maxK_lt
  obtain ⟨hf0, hpos, hone⟩ := share_of_field (f := s.fieldSize - 1) hk hwhole
    (by omega)
  have hvalue := value?_div (value?_natCast_of_le hwhole)
    (value?_toFloat (by omega : s.fieldSize - 1 < 18446744073709551616))
    hf0.ne' (abs_nearest_lt_of_inUnit hpos hone)
  obtain ⟨low, high⟩ := nearest_inUnit hpos hone
  obtain ⟨low', high'⟩ := nearest_inUnit (sub_nonneg.2 high) (sub_le_self 1 low)
  exact ⟨_, value?_complement hvalue low high, low', high', rfl⟩

/-- A batch of allowed size is sized after a timeout, as long as its packets
can be counted in doubles. -/
theorem timeout_ok (hs : s.Roomy) (hword : s.fieldSize ≤ wordMax)
    (hl : isEstimate loss = true) (hk : 1 ≤ k) (hle : k ≤ s.maxK)
    (hwhole : s.useCoding = true → k ≤ 9007199254740992) :
    ∃ size, s.timeout loss k = .ok size := by
  have hkf := hs.maxK_lt
  unfold timeout
  rw [if_neg (by omega)]
  by_cases coding : s.useCoding = true
  · have hwhole := hwhole coding
    rw [coding, if_neg (by decide), if_neg (by omega)]
    obtain ⟨r, hr, hr0, -⟩ :=
      value?_redundancy recoveryStart hl rfl
    obtain ⟨q, hq, hq0, hq1, -⟩ := value?_headroom hs hword hk hle hwhole
    have hspread := le_spread hk hwhole (value?_minNum hr hq)
      (le_min hr0 hq0) ((min_le_right r q).trans hq1)
    obtain ⟨needed, hneeded⟩ := needed?_ok hwhole hl
    dsimp only
    rw [hneeded]
    have hraise := le_raise (spread k (minNum (redundancy loss recoveryStart)
      (s.headroom k))) needed s.fieldSize
    have hkn := le_min (hspread.trans hraise) (by omega : k ≤ s.fieldSize)
    unfold headroom at hkn
    refine ⟨_, holding_of _ ?_⟩
    simp [hkn]
  · rw [Bool.not_eq_true] at coding
    rw [coding, if_pos (by decide)]
    exact ⟨_, rfl⟩

/-- A batch of lost packets that can be sent is sized: no more fit than
doubles can count. -/
theorem retransmission_ok (hl : isEstimate loss = true) (hk : 1 ≤ k)
    (hle : k ≤ s.maxK)
    (hmost : k ≤ min (fit coherenceUs packetUs) s.fieldSize) :
    ∃ size, s.retransmission loss k coherenceUs packetUs = .ok size := by
  have hwhole : k ≤ 9007199254740992 := by
    have := fit_lt coherenceUs packetUs
    omega
  unfold retransmission
  generalize min (fit coherenceUs packetUs) s.fieldSize = most at hmost ⊢
  dsimp only
  rw [if_neg (by omega)]
  by_cases coding : s.useCoding = true
  · rw [coding, if_neg (by decide)]
    obtain ⟨r, hr, hr0, -⟩ :=
      value?_redundancy recoveryStart hl rfl
    obtain ⟨needed, hneeded⟩ := needed?_ok hwhole hl
    rw [hneeded]
    generalize hfirst : (if redundancy loss recoveryStart < 1.0
      then spread k (redundancy loss recoveryStart) else most) = first
    have hstart : k ≤ first := by
      rw [← hfirst]
      split
      · next h =>
          exact le_spread hk hwhole hr hr0
            ((lt_iff_of_value? hr value?_one).1 h).le
      · exact hmost
    have hkn := le_min (hstart.trans (le_raise first needed most)) hmost
    refine ⟨_, holding_of _ ?_⟩
    simp [hkn]
  · rw [Bool.not_eq_true] at coding
    rw [coding, if_pos (by decide)]
    exact ⟨_, rfl⟩

-- =========================================================== refusals

theorem data_refused (h : fit coherenceUs packetUs = 0) (s : Sizer)
    (loss : Float) :
    s.data loss coherenceUs packetUs
      = .error (.refused (.coherenceTooShort coherenceUs packetUs)) := by
  unfold data
  exact if_pos h

theorem timeout_refused (h : k = 0 ∨ s.maxK < k) (loss : Float) :
    s.timeout loss k = .error (.refused (.invalidBatch k s.maxK)) := by
  unfold timeout
  exact if_pos h

theorem retransmission_refused
    (h : k = 0 ∨ min (fit coherenceUs packetUs) s.fieldSize < k ∨ s.maxK < k)
    (loss : Float) :
    s.retransmission loss k coherenceUs packetUs
      = .error (.refused (.invalidBatch k
        (min (min (fit coherenceUs packetUs) s.fieldSize) s.maxK))) := by
  unfold retransmission
  exact if_pos h

-- ========================================================= handed out

variable {size : BatchSize}

/-- A batch of fresh data that is handed out was coded, or has no
redundancy. -/
theorem data_eq_ok (h : s.data loss coherenceUs packetUs = .ok size) :
    fit coherenceUs packetUs ≠ 0
      ∧ ((s.useCoding = false ∧ size.n = min (fit coherenceUs packetUs) s.maxK)
        ∨ (s.useCoding = true ∧ size = s.coded loss (fit coherenceUs packetUs)
          ∧ size.k ≤ s.maxK ∧ size.k ≤ size.n)) := by
  have hroom : fit coherenceUs packetUs ≠ 0 := by
    intro hzero
    rw [data_refused hzero] at h
    cases h
  refine ⟨hroom, ?_⟩
  by_cases coding : s.useCoding = true
  · rw [data_coded coding hroom] at h
    obtain ⟨promise, rfl⟩ := holding_eq_ok h
    simp only [Bool.and_eq_true, decide_eq_true_eq] at promise
    exact .inr ⟨coding, rfl, promise.1.1, promise.1.2⟩
  · rw [Bool.not_eq_true] at coding
    unfold data at h
    dsimp only at h
    rw [if_neg hroom, coding, if_pos (by decide)] at h
    cases h
    exact .inl ⟨coding, rfl⟩

/-- A flush that is handed out has the packets it was asked for, in no more
than the field; coded, it is spread over the redundancy that the field has
room for, and raised by the extra packet. -/
theorem timeout_eq_ok (h : s.timeout loss k = .ok size) :
    1 ≤ k ∧ k ≤ s.maxK ∧ size.k = k
      ∧ ((s.useCoding = false ∧ size.n = k)
        ∨ (s.useCoding = true ∧ ∃ needed, needed? k loss = .ok needed
          ∧ size.n = min (raise (spread k (minNum
            (redundancy loss recoveryStart) (s.headroom k))) needed s.fieldSize)
              s.fieldSize)) := by
  unfold timeout at h
  split at h
  · cases h
  · next hlimits =>
      split at h
      · next coding =>
          rw [Bool.not_eq_true'] at coding
          cases h
          exact ⟨by omega, by omega, rfl, .inl ⟨coding, rfl⟩⟩
      · next coding =>
          rw [Bool.not_eq_true', Bool.not_eq_false] at coding
          split at h
          · cases h
          · dsimp only at h
            split at h
            · cases h
            · next needed hneeded =>
                obtain ⟨-, rfl⟩ := holding_eq_ok h
                exact ⟨by omega, by omega, rfl,
                  .inr ⟨coding, needed, hneeded, rfl⟩⟩

/-- So does a batch of lost packets, in no more than fit the coherence time;
a redundancy of one or more fills it. -/
theorem retransmission_eq_ok
    (h : s.retransmission loss k coherenceUs packetUs = .ok size) :
    1 ≤ k ∧ k ≤ s.maxK ∧ size.k = k
      ∧ k ≤ min (fit coherenceUs packetUs) s.fieldSize
      ∧ ((s.useCoding = false ∧ size.n = k)
        ∨ (s.useCoding = true ∧ ∃ needed, needed? k loss = .ok needed
          ∧ size.n = min (raise (if redundancy loss recoveryStart < 1.0
              then spread k (redundancy loss recoveryStart)
              else min (fit coherenceUs packetUs) s.fieldSize) needed
                (min (fit coherenceUs packetUs) s.fieldSize))
              (min (fit coherenceUs packetUs) s.fieldSize))) := by
  unfold retransmission at h
  dsimp only at h
  split at h
  · cases h
  · next hlimits =>
      split at h
      · next coding =>
          rw [Bool.not_eq_true'] at coding
          cases h
          exact ⟨by omega, by omega, rfl, by omega, .inl ⟨coding, rfl⟩⟩
      · next coding =>
          rw [Bool.not_eq_true', Bool.not_eq_false] at coding
          split at h
          · cases h
          · next needed hneeded =>
              obtain ⟨-, rfl⟩ := holding_eq_ok h
              exact ⟨by omega, by omega, rfl, by omega,
                .inr ⟨coding, needed, hneeded, rfl⟩⟩

-- =========================================================== endings

/-- How sizing ends: it breaks no bound, it is refused exactly where it has
to be, and what it hands out keeps to its limits. -/
structure Ends (result : Except Failure BatchSize) (refuses : Prop)
    (keeps : BatchSize → Prop) : Prop where
  unbroken : ∀ fault, result ≠ .error (.broken fault)
  refused_iff : (∃ error, result = .error (.refused error)) ↔ refuses
  handed_out : ∀ size, result = .ok size → keeps size

variable {result : Except Failure BatchSize} {refuses : Prop}
  {keeps : BatchSize → Prop}

theorem Ends.of_refused {error : Error}
    (h : result = .error (.refused error)) (hr : refuses) :
    Ends result refuses keeps := by
  subst h
  refine ⟨?_, ⟨fun _ => hr, fun _ => ⟨error, rfl⟩⟩, ?_⟩
  · intro fault h
    cases h
  · intro size h
    cases h

theorem Ends.of_ok {may : Failure → Prop} (h : ∃ size, result = .ok size)
    (hr : ¬ refuses) (hk : Upholds result keeps may) :
    Ends result refuses keeps := by
  obtain ⟨size, rfl⟩ := h
  refine ⟨?_, ⟨?_, fun h => absurd h hr⟩, fun other h => hk.of_eq_ok h⟩
  · intro fault h
    cases h
  · intro hrefused
    obtain ⟨error, h⟩ := hrefused
    cases h

/-- Every occasion sizes its batches within its limits, and refuses them
only where nothing can be sent or too much is asked for. -/
theorem sizing_within_limits (hs : s.Proper) (hl : isEstimate loss = true)
    (k : Nat) (coherenceUs packetUs : UInt32) :
    Ends (s.data loss coherenceUs packetUs) (fit coherenceUs packetUs = 0)
        (s.Keeps s.fieldSize)
      ∧ Ends (s.timeout loss k) (k = 0 ∨ s.maxK < k)
        (fun size => size.k = k ∧ s.Keeps s.fieldSize size)
      ∧ Ends (s.retransmission loss k coherenceUs packetUs)
        (k = 0 ∨ min (min (fit coherenceUs packetUs) s.fieldSize) s.maxK < k)
        (fun size => size.k = k
          ∧ s.Keeps (min (fit coherenceUs packetUs) s.fieldSize) size) := by
  refine ⟨?_, ?_, ?_⟩
  · by_cases h : fit coherenceUs packetUs = 0
    · exact .of_refused (data_refused h s loss) h
    · exact .of_ok (data_ok hs.toRoomy (fun _ => hs.maxK_lt_signed) hl h) h
        (data_keeps hs.toRoomy loss coherenceUs packetUs)
  · by_cases h : k = 0 ∨ s.maxK < k
    · exact .of_refused (timeout_refused h loss) h
    · have hwhole := hs.maxK_lt_whole
      exact .of_ok (timeout_ok hs.toRoomy hs.fieldSize_le_word hl (by omega)
        (by omega) (fun _ => by omega)) h (timeout_keeps hs.toRoomy loss k)
  · by_cases h : k = 0 ∨ min (fit coherenceUs packetUs) s.fieldSize < k
      ∨ s.maxK < k
    · exact .of_refused (retransmission_refused h loss) (by omega)
    · exact .of_ok
        (retransmission_ok hl (by omega) (by omega) (by omega)) (by omega)
        (retransmission_keeps s loss k coherenceUs packetUs)

/-- The tightest field, at a loss whose redundancy is more than a whole
batch. -/
theorem sizing_within_limits_tight :
    Proper ⟨33, 32, true⟩ ∧ isEstimate 1.0 = true
      ∧ Ends (data ⟨33, 32, true⟩ 1.0 5000 7) (fit 5000 7 = 0)
        (Keeps ⟨33, 32, true⟩ 33)
      ∧ Ends (timeout ⟨33, 32, true⟩ 1.0 32) (32 = 0 ∨ 32 < 32)
        (fun size => size.k = 32 ∧ Keeps ⟨33, 32, true⟩ 33 size)
      ∧ Ends (retransmission ⟨33, 32, true⟩ 1.0 32 5000 7)
        (32 = 0 ∨ min (min (fit 5000 7) 33) 32 < 32)
        (fun size => size.k = 32
          ∧ Keeps ⟨33, 32, true⟩ (min (fit 5000 7) 33) size) :=
  have hs : Proper ⟨33, 32, true⟩ := ⟨⟨by decide, by decide⟩, by decide⟩
  have hl : isEstimate 1.0 = true := by decide +kernel
  ⟨hs, hl, sizing_within_limits hs hl 32 5000 7⟩

end LinkAdaptation.Sizer
