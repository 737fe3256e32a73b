import Numaflow.Throttling.Store

/-!
# Token calculation

A rate limiter keeps a bucket of tokens for the current second.  In a new second the
bucket is refilled with a number that moves between `min` and `max` in steps of
`slope`, according to the mode.  The number is kept as a single-precision float,
since the slope may be a fraction; here the float arithmetic is a parameter.

Main results: `RateLimit.computeRefill`, `RateLimit.attemptAcquireN`,
`RateLimit.takeTokens_cases`, `RateLimit.computeRefill_le`,
`RateLimit.acquireN_of_epoch`.
-/

namespace Numaflow.Throttling

/-- The operations of `f32` that the refill uses. -/
class F32 (F : Type) extends Add F, Sub F, Mul F, Div F, Min F, Max F, NatCast F where
  ge : F → F → Bool
  gt : F → F → Bool
  round : F → F
  asUsize : F → Nat
  asUsize_le : ∀ x, asUsize x ≤ usizeMax

/-- Exact arithmetic, which `f32` agrees with on small whole numbers; rounding goes
away from zero at a half, the conversion to a machine word cuts and saturates. -/
instance : F32 ℚ where
  ge x y := decide (y ≤ x)
  gt x y := decide (y < x)
  round x := if 0 ≤ x then (x + 1 / 2).floor else (x - 1 / 2).ceil
  asUsize x := min x.floor.toNat usizeMax
  asUsize_le _ := min_le_right _ _

/-- When the number of tokens is reduced, and by how much. -/
structure GoBackNConfig where
  coolDownPeriod : Nat
  rampDownPercentage : Nat
  utilizationThreshold : Nat
deriving DecidableEq, Repr

inductive Mode where
  | scheduled
  | relaxed
  | onlyIfUsed (thresholdPercentage : Nat)
  | goBackN (config : GoBackNConfig)
deriving DecidableEq, Repr

/-- The steps of the refill and the machine words between which it moves. -/
structure TokenCalcBounds (F : Type) where
  slope : F
  max : Nat
  min : Nat
  mode : Mode
  max_le : max ≤ usizeMax := by decide

/-- The bucket, which all clones of a rate limiter share. -/
structure RateLimit (F : Type) where
  tokenCalcBounds : TokenCalcBounds F
  token : Nat
  maxEverFilled : F
  lastQueriedEpoch : Nat

/-- Whether tokens could be taken. -/
inductive TokenAvailability where
  | available (tokens : Nat)
  | exhausted
  | recompute
deriving DecidableEq, Repr

/-- The number of tokens that a call returns for an answer. -/
def TokenAvailability.tokens : TokenAvailability → Nat
  | .available tokens => tokens
  | .exhausted => 0
  | .recompute => 0

variable {F : Type}

namespace RateLimit

section

variable (rl : RateLimit F)

/-- Take all tokens, or as many of the wanted ones as there are. -/
def takeTokens (n : Option Nat) : TokenAvailability × RateLimit F :=
  if rl.token = 0 then (.exhausted, rl)
  else
    match n with
    | none => (.available rl.token, { rl with token := 0 })
    | some requested =>
      (.available (Min.min rl.token requested), { rl with token := rl.token - requested })

/-- Put unused tokens back, unless they belong to another second. -/
def attemptDepositUnused (n curEpoch : Nat) : RateLimit F :=
  if curEpoch ≠ rl.lastQueriedEpoch then rl else { rl with token := wrappingAdd rl.token n }

/-- Tokens are taken out of the bucket, or none is left. -/
theorem takeTokens_cases (n : Option Nat) : rl.takeTokens n = (.exhausted, rl) ∨
      ∃ taken left, rl.takeTokens n = (.available taken, { rl with token := left }) ∧
        left + taken = rl.token := by
  unfold takeTokens
  by_cases hempty : rl.token = 0
  · exact .inl (if_pos hempty)
  · rw [if_neg hempty]
    right
    cases n with
    | none => exact ⟨rl.token, 0, rfl, Nat.zero_add rl.token⟩
    | some requested => exact ⟨Min.min rl.token requested, rl.token - requested, rfl, by omega⟩

theorem takeTokens_some (requested : Nat) :
    (rl.takeTokens (some requested)).1.tokens = Min.min rl.token requested ∧
      (rl.takeTokens (some requested)).2 = { rl with token := rl.token - requested } := by
  unfold takeTokens
  split_ifs with hempty
  · cases rl
    simp_all [TokenAvailability.tokens]
  · exact ⟨rfl, rfl⟩

end

end RateLimit

variable [F32 F]

namespace TokenCalcBounds

section

variable (b : TokenCalcBounds F) (maxEverFilled : F)

/-- Increase by the slope, at most to the maximum. -/
def relaxedSlopeIncrease : Nat × F :=
  if F32.ge maxEverFilled (b.max : F) then (b.max, maxEverFilled)
  else
    let cappedRefill := Min.min (maxEverFilled + b.slope) (b.max : F)
    (F32.asUsize cappedRefill, cappedRefill)

/-- Increase by the slope for every second that has passed. -/
def scheduledSlopeIncrease (b : TokenCalcBounds F) (timeDiff : Nat) (maxEverFilled : F) : Nat × F :=
  if F32.ge maxEverFilled (b.max : F) then (b.max, maxEverFilled)
  else
    let cappedRefill := Min.min (maxEverFilled + b.slope * (timeDiff : F)) (b.max : F)
    (F32.asUsize cappedRefill, cappedRefill)

/-- Increase only when enough tokens were used. -/
def onlyIfUsedSlopeIncrease
    (usedTokenPercentage usedThresholdPercentage : Nat) : Nat × F :=
  if usedThresholdPercentage ≤ usedTokenPercentage then b.relaxedSlopeIncrease maxEverFilled
  else (F32.asUsize maxEverFilled, maxEverFilled)

/-- Reduce after a pause or when too few tokens were used, increase otherwise. -/
def goBackNSlopeIncrease (usedTokenPercentage : Nat)
    (config : GoBackNConfig) (timeDiff : Nat) : Nat × F :=
  if F32.gt (timeDiff : F) (config.coolDownPeriod : F) then
    let reducedRefill := maxEverFilled -
      (config.rampDownPercentage : F) / ((100 : Nat) : F) * b.slope *
        ((timeDiff : F) - ((1 : Nat) : F))
    let cappedRefill := Min.min (Max.max reducedRefill (b.min : F)) (b.max : F)
    (F32.asUsize cappedRefill, cappedRefill)
  else if config.utilizationThreshold ≤ usedTokenPercentage then
    b.relaxedSlopeIncrease maxEverFilled
  else
    let reducedRefill := Max.max (maxEverFilled - b.slope) (b.min : F)
    (F32.asUsize reducedRefill, reducedRefill)

end

end TokenCalcBounds

namespace RateLimit

/-- A bucket that has never been queried. -/
def new (bounds : TokenCalcBounds F) : RateLimit F where
  tokenCalcBounds := bounds
  token := bounds.min
  maxEverFilled := (bounds.min : F)
  lastQueriedEpoch := 0

/-- A part of the largest number of tokens, in percent. -/
def percentage (part : F) : Nat :=
  F32.asUsize (F32.round (part * ((100 : Nat) : F)))

/-- How many percent of the tokens were used since the last refill; the tokens that cannot
be given out because of fractions count as used. -/
def usedTokenPercentage (rl : RateLimit F) : Nat :=
  let used := percentage (((1 : Nat) : F) - (rl.token : F) / rl.maxEverFilled)
  let floorNormalization := percentage (rl.tokenCalcBounds.slope / rl.maxEverFilled)
  Min.min (used + floorNormalization) 100

/-- The number of tokens for the next second and the new largest number.  The subtraction
of the epochs saturates at zero. -/
def computeRefill (rl : RateLimit F) (curEpoch : Nat) : Nat × F :=
  let b := rl.tokenCalcBounds
  match b.mode with
  | .relaxed => b.relaxedSlopeIncrease rl.maxEverFilled
  | .scheduled => b.scheduledSlopeIncrease (curEpoch - rl.lastQueriedEpoch) rl.maxEverFilled
  | .onlyIfUsed threshold =>
    b.onlyIfUsedSlopeIncrease rl.maxEverFilled rl.usedTokenPercentage (Min.min threshold 100)
  | .goBackN config =>
    b.goBackNSlopeIncrease rl.maxEverFilled rl.usedTokenPercentage config
      (curEpoch - rl.lastQueriedEpoch)

/-- A refill is a machine word. -/
theorem computeRefill_le (rl : RateLimit F) (curEpoch : Nat) :
    (rl.computeRefill curEpoch).1 ≤ usizeMax := by
  have hrelaxed : ∀ filled, (rl.tokenCalcBounds.relaxedSlopeIncrease filled).1 ≤ usizeMax := by
    intro filled
    rw [TokenCalcBounds.relaxedSlopeIncrease]
    split_ifs
    · exact rl.tokenCalcBounds.max_le
    · exact F32.asUsize_le _
  rw [computeRefill]
  cases rl.tokenCalcBounds.mode with
  | relaxed => exact hrelaxed _
  | scheduled =>
    simp only [TokenCalcBounds.scheduledSlopeIncrease]
    split_ifs
    · exact rl.tokenCalcBounds.max_le
    · exact F32.asUsize_le _
  | onlyIfUsed =>
    simp only [TokenCalcBounds.onlyIfUsedSlopeIncrease]
    split_ifs
    · exact hrelaxed _
    · exact F32.asUsize_le _
  | goBackN =>
    simp only [TokenCalcBounds.goBackNSlopeIncrease]
    split_ifs
    · exact F32.asUsize_le _
    · exact hrelaxed _
    · exact F32.asUsize_le _

def getTokens (rl : RateLimit F) (n : Option Nat) (curEpoch : Nat) :
    TokenAvailability × RateLimit F :=
  if rl.lastQueriedEpoch < curEpoch then (.recompute, rl) else rl.takeTokens n

/-- The bucket with the tokens of a new second. -/
def refill (rl : RateLimit F) (curEpoch : Nat) : RateLimit F :=
  { rl with
    token := (rl.computeRefill curEpoch).1
    maxEverFilled := (rl.computeRefill curEpoch).2
    lastQueriedEpoch := curEpoch }

/-- Take tokens, after a refill when the second is new. -/
def attemptAcquireN (rl : RateLimit F) (n : Option Nat) (curEpoch : Nat) : Nat × RateLimit F :=
  match rl.getTokens n curEpoch with
  | (.available tokens, rl) => (tokens, rl)
  | (.exhausted, rl) => (0, rl)
  | (.recompute, rl) =>
    let (availability, rl) := (rl.refill curEpoch).getTokens n curEpoch
    (availability.tokens, rl)

/-- Take tokens; when there are none, try again in the later seconds that begin before the
timeout. -/
def acquireN (rl : RateLimit F) (n : Option Nat) (curEpoch : Nat) : List Nat → Nat × RateLimit F
  | [] => rl.attemptAcquireN n curEpoch
  | next :: later =>
    let (tokens, rl) := rl.attemptAcquireN n curEpoch
    if 0 < tokens then (tokens, rl) else rl.acquireN n next later

variable {rl : RateLimit F} {n : Option Nat} {curEpoch : Nat}

theorem attemptAcquireN_of_le (h : curEpoch ≤ rl.lastQueriedEpoch) :
    rl.attemptAcquireN n curEpoch = ((rl.takeTokens n).1.tokens, (rl.takeTokens n).2) := by
  rw [attemptAcquireN, getTokens, if_neg (not_lt.mpr h)]
  rcases rl.takeTokens_cases n with htake | ⟨taken, left, htake, -⟩
  · rw [htake]
    rfl
  · rw [htake]
    rfl

theorem attemptAcquireN_of_lt (h : rl.lastQueriedEpoch < curEpoch) : rl.attemptAcquireN n curEpoch =
      (((rl.refill curEpoch).takeTokens n).1.tokens, ((rl.refill curEpoch).takeTokens n).2) := by
  rw [attemptAcquireN, getTokens, if_pos h]
  simp only [getTokens, refill, lt_irrefl, if_false]

/-! ## One second -/

/-- The tokens that a call in the given second finds. -/
def available (rl : RateLimit F) (epoch : Nat) : Nat :=
  if rl.lastQueriedEpoch < epoch then (rl.computeRefill epoch).1 else rl.token

theorem available_of_queried (h : rl.lastQueriedEpoch = curEpoch) :
    rl.available curEpoch = rl.token := by
  rw [available, if_neg (not_lt.mpr h.ge)]

/-- A call takes as many of the tokens it finds as it asks for. -/
theorem attemptAcquireN_of_epoch (h : rl.lastQueriedEpoch ≤ curEpoch) (requested : Nat) :
    (rl.attemptAcquireN (some requested) curEpoch).1 = Min.min (rl.available curEpoch) requested ∧
      (rl.attemptAcquireN (some requested) curEpoch).2.lastQueriedEpoch = curEpoch ∧
      (rl.attemptAcquireN (some requested) curEpoch).2.token =
        rl.available curEpoch - requested := by
  rcases h.eq_or_lt with heq | hlt
  · rw [attemptAcquireN_of_le heq.ge, available_of_queried heq]
    obtain ⟨htokens, hleft⟩ := rl.takeTokens_some requested
    exact ⟨htokens, by rw [hleft]; exact heq, by rw [hleft]⟩
  · rw [attemptAcquireN_of_lt hlt, available, if_pos hlt]
    obtain ⟨htokens, hleft⟩ := (rl.refill curEpoch).takeTokens_some requested
    exact ⟨htokens, by rw [hleft]; rfl, by rw [hleft]; rfl⟩

variable {later : List Nat}

/-- A call whose attempts all fall into one second takes as many of the tokens it finds as
it asks for. -/
theorem acquireN_of_epoch (h : rl.lastQueriedEpoch ≤ curEpoch) (requested : Nat)
    (hlater : ∀ epoch ∈ later, epoch = curEpoch) :
    (rl.acquireN (some requested) curEpoch later).1 = Min.min (rl.available curEpoch) requested ∧
      (rl.acquireN (some requested) curEpoch later).2.lastQueriedEpoch = curEpoch ∧
      (rl.acquireN (some requested) curEpoch later).2.token =
        rl.available curEpoch - requested := by
  induction later generalizing rl with
  | nil => exact attemptAcquireN_of_epoch h requested
  | cons next _ ih =>
    obtain ⟨htokens, hepoch, hleft⟩ := attemptAcquireN_of_epoch h requested
    obtain ⟨rfl, hlater⟩ := List.forall_mem_cons.mp hlater
    simp only [acquireN]
    split_ifs with hsome
    · exact ⟨htokens, hepoch, hleft⟩
    · -- nothing was taken, so the next attempt finds the same bucket
      obtain ⟨hagain, hepoch', hleft'⟩ := ih hepoch.le hlater
      rw [available_of_queried hepoch] at hagain hleft'
      exact ⟨by omega, hepoch', by omega⟩

end RateLimit
end Numaflow.Throttling
