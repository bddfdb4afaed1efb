import ReacJack.BufferLoops

/-! Unbounded positions folded onto `capacity` slots. A window of at most
`capacity` consecutive positions never uses one slot twice; that is the only
reason a circular buffer may be shared by a reader and a writer. -/
namespace ReacJack.CircularBuffer
open BufferLoops

theorem windowInjective {capacity a p q : Nat} (hp : a ≤ p ∧ p < a + capacity)
    (hq : a ≤ q ∧ q < a + capacity) (same : p % capacity = q % capacity) : p = q := by
  have close : ∀ {b c : Nat}, b ≤ c → c < b + capacity → b % capacity = c % capacity → b = c := by
    intro b c le lt eq
    have divides := Nat.dvd_of_mod_eq_zero (Nat.sub_mod_eq_zero_of_mod_eq eq.symm)
    have zero := Nat.eq_zero_of_dvd_of_lt divides (by omega)
    omega
  rcases Nat.le_total p q with le | le
  · exact close le (by omega) same
  · exact (close le (by omega) same.symm).symm

theorem firstSegment {capacity p i : Nat} (before : i < capacity - p % capacity) :
    (p + i) % capacity = p % capacity + i := by
  have small : p % capacity + i < capacity := by omega
  rw [← Nat.mod_add_mod, Nat.mod_eq_of_lt small]

theorem secondSegment {capacity p i : Nat} (positive : 0 < capacity)
    (after : capacity - p % capacity ≤ i) (small : i < capacity) :
    (p + i) % capacity = i - (capacity - p % capacity) := by
  have inside := Nat.mod_lt p positive
  have wraps : capacity ≤ p % capacity + i := by omega
  have rest : p % capacity + i - capacity < capacity := by omega
  rw [← Nat.mod_add_mod, Nat.mod_eq_sub_mod wraps, Nat.mod_eq_of_lt rest]
  omega

/-- Channel-major storage: channel `ch` owns the slots from `ch * capacity` on. -/
def slot (capacity ch p : Nat) : Nat := ch * capacity + p % capacity

theorem slotInjective {capacity a ch ch' p q : Nat} (hp : a ≤ p ∧ p < a + capacity)
    (hq : a ≤ q ∧ q < a + capacity) (same : slot capacity ch p = slot capacity ch' q) :
    ch = ch' ∧ p = q := by
  have positive : 0 < capacity := by omega
  obtain ⟨channel,index⟩ := cellInjective (Nat.mod_lt p positive) (Nat.mod_lt q positive) same
  exact ⟨channel,windowInjective hp hq index⟩

variable {α : Type}

def copyIn (dst : Nat → α) (base capacity index n : Nat) (src : Nat → α) : Nat → α :=
  let first := min n (capacity - index)
  memcpy (memcpy dst (base + index) src first) base (fun i => src (first + i)) (n - first)

theorem copyInAt (dst : Nat → α) {base capacity p n f : Nat} (src : Nat → α)
    (fits : n ≤ capacity) (inside : f < n) :
    copyIn dst base capacity (p % capacity) n src (base + (p + f) % capacity) = src f := by
  have positive : 0 < capacity := by omega
  have index := Nat.mod_lt p positive
  unfold copyIn
  rcases Nat.lt_or_ge f (capacity - p % capacity) with before | after
  · rw [firstSegment before, memcpyOutside _ _ (by omega),
      memcpyInside _ _ (by omega) (by omega)]
    congr 1
    omega
  · rw [secondSegment positive after (by omega), memcpyInside _ _ (by omega) (by omega)]
    congr 1
    omega

theorem copyInElsewhere (dst : Nat → α) {base capacity p n i : Nat} (src : Nat → α)
    (positive : 0 < capacity) (fits : n ≤ capacity)
    (apart : ∀ f, f < n → i ≠ base + (p + f) % capacity) :
    copyIn dst base capacity (p % capacity) n src i = dst i := by
  have index := Nat.mod_lt p positive
  unfold copyIn
  rw [memcpyOutside, memcpyOutside]
  · by_contra touched
    have here := apart (i - (base + p % capacity)) (by omega)
    rw [firstSegment (by omega)] at here
    omega
  · by_contra touched
    have here := apart (capacity - p % capacity + (i - base)) (by omega)
    rw [secondSegment positive (by omega) (by omega)] at here
    omega

theorem rowMod {capacity width q k : Nat} (positive : 0 < capacity) (inside : k < width) :
    (q * width + k) % (capacity * width) = q % capacity * width + k := by
  have whole : q * width + k = capacity * width * (q / capacity) + (q % capacity * width + k) := by
    calc q * width + k = (capacity * (q / capacity) + q % capacity) * width + k := by rw [Nat.div_add_mod]
      _ = capacity * width * (q / capacity) + (q % capacity * width + k) := by ring
  rw [whole, Nat.mul_add_mod]
  exact Nat.mod_eq_of_lt (cellBound (Nat.mod_lt q positive) inside)

theorem restartsAtZero {capacity : Nat} (p : Nat) (positive : 0 < capacity) :
    (p + (capacity - p % capacity)) % capacity = 0 := by
  have inside := Nat.mod_lt p positive
  have whole := Nat.div_add_mod p capacity
  have next : p + (capacity - p % capacity) = capacity * (p / capacity + 1) := by
    rw [Nat.mul_add, Nat.mul_one]
    omega
  rw [next, Nat.mul_mod_right]

theorem copyInRows (dst src : Nat → α) (capacity width index n : Nat) :
    copyIn dst 0 (capacity * width) (index * width) (n * width) src =
      memcpy (memcpy dst (index * width) src (min n (capacity - index) * width)) 0
        (fun i => src (min n (capacity - index) * width + i))
        ((n - min n (capacity - index)) * width) := by
  have first : min (n * width) (capacity * width - index * width) = min n (capacity - index) * width := by
    rw [← Nat.sub_mul, Nat.mul_min_mul_right]
  simp only [copyIn, first, Nat.zero_add, Nat.sub_mul]

theorem copyInRowAt (dst src : Nat → α) {capacity width p n f k : Nat} (fits : n ≤ capacity)
    (inside : f < n) (column : k < width) :
    copyIn dst 0 (capacity * width) (p % capacity * width) (n * width) src
        ((p + f) % capacity * width + k) = src (f * width + k) := by
  have stored : copyIn dst 0 (capacity * width) (p * width % (capacity * width)) (n * width) src
      (0 + (p * width + (f * width + k)) % (capacity * width)) = src (f * width + k) :=
    copyInAt dst src (Nat.mul_le_mul_right width fits) (cellBound inside column)
  have address : p * width + (f * width + k) = (p + f) * width + k := by ring
  rw [address, rowMod (by omega) column, Nat.mul_mod_mul_right, Nat.zero_add] at stored
  exact stored

def copyOut (buffer : Nat → α) (src : Nat → α) (base capacity index n : Nat) : Nat → α :=
  let first := min n (capacity - index)
  memcpy (memcpy buffer 0 (fun i => src (base + index + i)) first) first
    (fun i => src (base + i)) (n - first)

theorem copyOutAt (buffer : Nat → α) (src : Nat → α) {base capacity p n f : Nat}
    (fits : n ≤ capacity) (inside : f < n) :
    copyOut buffer src base capacity (p % capacity) n f = src (base + (p + f) % capacity) := by
  have positive : 0 < capacity := by omega
  have index := Nat.mod_lt p positive
  unfold copyOut
  rcases Nat.lt_or_ge f (capacity - p % capacity) with before | after
  · rw [firstSegment before, memcpyOutside _ _ (by omega),
      memcpyInside _ _ (by omega) (by omega)]
    congr 1
    omega
  · rw [secondSegment positive after (by omega), memcpyInside _ _ (by omega) (by omega)]
    congr 2
    omega

def copyInAll (dst : Nat → α) (channels capacity index n : Nat) (src : Nat → Nat → α) : Nat → α :=
  loop channels (fun ch d => copyIn d (ch * capacity) capacity index n (src ch)) dst

theorem copyInAllAt (dst : Nat → α) {channels capacity p n ch f : Nat} (src : Nat → Nat → α)
    (fits : n ≤ capacity) (inside : f < n) (channel : ch < channels) :
    copyInAll dst channels capacity (p % capacity) n src (slot capacity ch (p + f)) = src ch f := by
  have positive : 0 < capacity := by omega
  unfold copyInAll
  have filled := loopInvariant (n := channels) (s := dst)
    (f := fun k d => copyIn d (k * capacity) capacity (p % capacity) n (src k))
    (P := fun k (d : Nat → α) => ch < k → d (slot capacity ch (p + f)) = src ch f) (by omega) ?_
  · exact filled channel
  · intro k d _ before below
    rcases Nat.lt_or_ge ch k with old | new
    · rw [copyInElsewhere d (src k) positive fits, before old]
      intro g small same
      have := slotInjective (a := p) (by omega) (by omega)
        (show slot capacity ch (p + f) = slot capacity k (p + g) from same)
      omega
    · obtain rfl : ch = k := by omega
      exact copyInAt d (src ch) fits inside

theorem copyInAllElsewhere (dst : Nat → α) {channels capacity p n i : Nat} (src : Nat → Nat → α)
    (positive : 0 < capacity) (fits : n ≤ capacity)
    (apart : ∀ ch f, ch < channels → f < n → i ≠ slot capacity ch (p + f)) :
    copyInAll dst channels capacity (p % capacity) n src i = dst i := by
  unfold copyInAll
  refine loopInvariant (P := fun _ (d : Nat → α) => d i = dst i) rfl ?_
  intro ch d channel before
  rw [copyInElsewhere d (src ch) positive fits (fun f inside => apart ch f channel inside), before]

end ReacJack.CircularBuffer
