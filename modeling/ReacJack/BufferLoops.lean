import Mathlib.Data.Nat.Basic
import Mathlib.Tactic.Ring

/-! Counted loops and flat memory. A buffer is a total function from offsets to
values; lengths and offsets count elements, never bytes. Nothing here knows
which program runs the loops. -/
namespace ReacJack.BufferLoops

variable {α σ : Type}

def loop : Nat → (Nat → σ → σ) → σ → σ
  | 0, _, s => s
  | n + 1, body, s => body n (loop n body s)

@[simp] theorem loopZero (body : Nat → σ → σ) (s : σ) : loop 0 body s = s := rfl

theorem loopSucc (n : Nat) (body : Nat → σ → σ) (s : σ) :
    loop (n + 1) body s = body n (loop n body s) := rfl

/- The only loop rule the development needs: a predicate indexed by the number
of finished rounds. -/
theorem loopInvariant {P : Nat → σ → Prop} {n : Nat} {f : Nat → σ → σ} {s : σ}
    (start : P 0 s) (keeps : ∀ i t, i < n → P i t → P (i + 1) (f i t)) :
    P n (loop n f s) := by
  induction n with
  | zero => exact start
  | succ n ih =>
    have before := ih (fun i t inside => keeps i t (Nat.lt_succ_of_lt inside))
    exact keeps n _ (Nat.lt_succ_self n) before

def loopSome : Nat → (Nat → σ → Option σ) → σ → Option σ
  | 0, _, s => some s
  | n + 1, body, s => (loopSome n body s).bind (body n)

/- No round faults as long as the invariant rules it out. -/
theorem loopSomeInvariant {P : Nat → σ → Prop} {n : Nat} {g : Nat → σ → Option σ} {f : Nat → σ → σ} {s : σ}
    (start : P 0 s) (keeps : ∀ i t, i < n → P i t → g i t = some (f i t) ∧ P (i + 1) (f i t)) :
    loopSome n g s = some (loop n f s) ∧ P n (loop n f s) := by
  induction n with
  | zero => exact ⟨rfl,start⟩
  | succ n ih =>
    obtain ⟨result,before⟩ := ih (fun i t inside => keeps i t (Nat.lt_succ_of_lt inside))
    obtain ⟨last,after⟩ := keeps n _ (Nat.lt_succ_self n) before
    exact ⟨by rw [loopSome, result]; exact last,after⟩

def whileLoop (test : σ → Bool) (body : σ → σ) : Nat → σ → Option σ
  | 0, s => if test s then none else some s
  | fuel + 1, s => if test s then whileLoop test body fuel (body s) else some s

/- A measure that every round lowers is fuel enough. -/
theorem whileInvariant {P : σ → Prop} {test : σ → Bool} {body : σ → σ} (measure_ : σ → Nat)
    (keeps : ∀ s, P s → test s = true → P (body s) ∧ measure_ (body s) < measure_ s)
    {fuel : Nat} {s : σ} (start : P s) (enough : measure_ s ≤ fuel) :
    ∃ t, whileLoop test body fuel s = some t ∧ P t ∧ test t = false := by
  induction fuel generalizing s with
  | zero =>
    cases h : test s with
    | false => exact ⟨s,by simp [whileLoop, h],start,h⟩
    | true =>
      have := (keeps s start h).2
      omega
  | succ fuel ih =>
    cases h : test s with
    | false => exact ⟨s,by simp [whileLoop, h],start,h⟩
    | true =>
      obtain ⟨next,less⟩ := keeps s start h
      obtain ⟨t,result,holds⟩ := ih next (by omega)
      exact ⟨t,by simp only [whileLoop, h, if_true, result],holds⟩

def EndsWithin (test : σ → Bool) (body : σ → σ) (rounds : Nat) (s : σ) : Prop :=
  (whileLoop test body rounds s).isSome = true

def put (buffer : Nat → α) (at_ : Nat) (value : α) : Nat → α :=
  fun i => if i = at_ then value else buffer i

@[simp] theorem putHere (buffer : Nat → α) (i : Nat) (value : α) : put buffer i value i = value := by
  simp [put]

theorem putElsewhere (buffer : Nat → α) {i j : Nat} (value : α) (apart : i ≠ j) :
    put buffer j value i = buffer i := by
  simp [put, apart]

def memcpy (dst : Nat → α) (start : Nat) (src : Nat → α) (n : Nat) : Nat → α :=
  fun i => if start ≤ i ∧ i < start + n then src (i - start) else dst i

def memset (dst : Nat → α) (start : Nat) (value : α) (n : Nat) : Nat → α :=
  memcpy dst start (fun _ => value) n

theorem memcpyInside (dst : Nat → α) {start i : Nat} (src : Nat → α) {n : Nat}
    (low : start ≤ i) (high : i < start + n) : memcpy dst start src n i = src (i - start) :=
  if_pos ⟨low,high⟩

theorem memcpyOutside (dst : Nat → α) {start i : Nat} (src : Nat → α) {n : Nat}
    (outside : i < start ∨ start + n ≤ i) : memcpy dst start src n i = dst i := by
  apply if_neg
  omega

theorem memcpyNothing (dst : Nat → α) (start : Nat) (src : Nat → α) :
    memcpy dst start src 0 = dst := by
  funext i
  exact memcpyOutside dst src (by omega)

theorem memsetInside (dst : Nat → α) {start i : Nat} (value : α) {n : Nat}
    (low : start ≤ i) (high : i < start + n) : memset dst start value n i = value :=
  memcpyInside dst (fun _ => value) low high

theorem memsetOutside (dst : Nat → α) {start i : Nat} (value : α) {n : Nat}
    (outside : i < start ∨ start + n ≤ i) : memset dst start value n i = dst i :=
  memcpyOutside dst (fun _ => value) outside

theorem loopEach (n : Nat) (f : Nat → α → α) (buffer : Nat → α) (k : Nat) :
    loop n (fun i b => put b i (f i (b i))) buffer k = if k < n then f k (buffer k) else buffer k := by
  refine loopInvariant (P := fun n (b : Nat → α) =>
    b k = if k < n then f k (buffer k) else buffer k) (by simp) ?_
  intro i b _ before
  by_cases here : k = i
  · subst here
    rw [putHere, before]
    simp
  · have iff : k < i + 1 ↔ k < i := by omega
    rw [putElsewhere _ _ here, before]
    simp only [iff]

theorem rowColumn {width row column : Nat} (inside : column < width) :
    (row * width + column) / width = row ∧ (row * width + column) % width = column := by
  have positive : 0 < width := Nat.zero_lt_of_lt inside
  constructor
  · rw [Nat.mul_comm, Nat.mul_add_div positive, Nat.div_eq_of_lt inside, Nat.add_zero]
  · rw [Nat.mul_comm, Nat.mul_add_mod, Nat.mod_eq_of_lt inside]

theorem cellInjective {width row column row' column' : Nat} (inside : column < width)
    (inside' : column' < width) (same : row * width + column = row' * width + column') :
    row = row' ∧ column = column' := by
  have left := @rowColumn width row column inside
  have right := @rowColumn width row' column' inside'
  rw [same] at left
  exact ⟨left.1.symm.trans right.1,left.2.symm.trans right.2⟩

theorem cellBound {width rows row column : Nat} (inRow : row < rows) (inside : column < width) :
    row * width + column < rows * width := by
  calc row * width + column < row * width + width := Nat.add_lt_add_left inside _
    _ = (row + 1) * width := by ring
    _ ≤ rows * width := Nat.mul_le_mul_right _ inRow

theorem cellOf {width : Nat} (positive : 0 < width) (i : Nat) :
    i / width * width + i % width = i ∧ i % width < width := by
  refine ⟨?_,Nat.mod_lt i positive⟩
  rw [Nat.mul_comm]
  exact Nat.div_add_mod i width

theorem memcpyRowsInside (dst src : Nat → α) {width start rows row column : Nat} (inside : column < width)
    (low : start ≤ row) (high : row < start + rows) :
    memcpy dst (start * width) src (rows * width) (row * width + column) =
      src ((row - start) * width + column) := by
  have above := Nat.mul_le_mul_right width low
  have below := cellBound high inside
  rw [Nat.add_mul] at below
  rw [memcpyInside _ _ (by omega) below]
  congr 1
  rw [Nat.sub_mul]
  omega

theorem memcpyRowsOutside (dst src : Nat → α) {width start rows row column : Nat} (inside : column < width)
    (outside : row < start ∨ start + rows ≤ row) :
    memcpy dst (start * width) src (rows * width) (row * width + column) = dst (row * width + column) := by
  refine memcpyOutside _ _ ?_
  rcases outside with before | after
  · exact Or.inl (cellBound before inside)
  · have above := Nat.mul_le_mul_right width after
    rw [Nat.add_mul] at above
    exact Or.inr (by omega)

def fillColumn (width column rows : Nat) (value : Nat → α) (buffer : Nat → α) : Nat → α :=
  loop rows (fun row b => put b (row * width + column) (value row)) buffer

theorem fillColumnAt {width column rows : Nat} (value buffer : Nat → α) {row k : Nat}
    (inside : column < width) (inside' : k < width) :
    fillColumn width column rows value buffer (row * width + k) =
      if k = column ∧ row < rows then value row else buffer (row * width + k) := by
  unfold fillColumn
  refine loopInvariant (P := fun n (b : Nat → α) => b (row * width + k) =
    if k = column ∧ row < n then value row else buffer (row * width + k)) (by simp) ?_
  intro i b _ before
  by_cases here : row = i ∧ k = column
  · obtain ⟨rfl,rfl⟩ := here
    simp
  · have apart : row * width + k ≠ i * width + column := by
      intro same
      exact here (cellInjective inside' inside same)
    rw [putElsewhere _ _ apart, before]
    have iff : (k = column ∧ row < i + 1) ↔ (k = column ∧ row < i) := by omega
    simp only [iff]

theorem fillColumnOutside {width column rows : Nat} (value buffer : Nat → α) {i : Nat}
    (inside : column < width) (outside : rows * width ≤ i) :
    fillColumn width column rows value buffer i = buffer i := by
  unfold fillColumn
  refine loopInvariant (P := fun _ (b : Nat → α) => b i = buffer i) rfl ?_
  intro row b inRow before
  have below := cellBound inRow inside
  rw [putElsewhere _ _ (by omega), before]

def fillColumns (width columns rows : Nat) (value : Nat → Nat → α) (buffer : Nat → α) : Nat → α :=
  loop columns (fun column b => fillColumn width column rows (value column) b) buffer

theorem fillColumnsAt {width columns rows : Nat} (value : Nat → Nat → α) (buffer : Nat → α)
    {row k : Nat} (narrow : columns ≤ width) (inside : k < width) :
    fillColumns width columns rows value buffer (row * width + k) =
      if k < columns ∧ row < rows then value k row else buffer (row * width + k) := by
  unfold fillColumns
  refine loopInvariant (P := fun n (b : Nat → α) => b (row * width + k) =
    if k < n ∧ row < rows then value k row else buffer (row * width + k)) (by simp) ?_
  intro column b inside' before
  rw [fillColumnAt _ _ (by omega) inside, before]
  by_cases here : k = column
  · subst here
    by_cases top : row < rows <;> simp [top]
  · have iff : k < column + 1 ↔ k < column := by omega
    simp only [here, iff, false_and, if_false]

theorem fillColumnsOutside {width columns rows : Nat} (value : Nat → Nat → α) (buffer : Nat → α)
    {i : Nat} (narrow : columns ≤ width) (outside : rows * width ≤ i) :
    fillColumns width columns rows value buffer i = buffer i := by
  unfold fillColumns
  refine loopInvariant (P := fun _ (b : Nat → α) => b i = buffer i) rfl ?_
  intro column b inside before
  rw [fillColumnOutside _ _ (by omega) outside, before]

theorem rowFilledAt (buffer value : Nat → α) {width columns frame row k : Nat} (narrow : columns ≤ width)
    (inside : k < width) :
    loop columns (fun ch b => put b (frame * width + ch) (value ch)) buffer (row * width + k) =
      if row = frame ∧ k < columns then value k else buffer (row * width + k) := by
  refine loopInvariant (P := fun n (b : Nat → α) => b (row * width + k) =
    if row = frame ∧ k < n then value k else buffer (row * width + k)) (by simp) ?_
  intro ch b inside' before
  by_cases here : row = frame ∧ k = ch
  · obtain ⟨rfl,rfl⟩ := here
    simp
  · have apart : row * width + k ≠ frame * width + ch := by
      intro same
      exact here (cellInjective inside (by omega) same)
    have iff : (row = frame ∧ k < ch + 1) ↔ (row = frame ∧ k < ch) := by omega
    rw [putElsewhere _ _ apart, before]
    simp only [iff]

theorem rowsFilledAt (buffer : Nat → α) (value : Nat → Nat → α) {width rows row k : Nat} (inRow : row < rows)
    (inside : k < width) :
    loop rows (fun row b => loop width (fun k b => put b (row * width + k) (value k row)) b) buffer
      (row * width + k) = value k row := by
  have filled := loopInvariant (n := rows) (s := buffer)
    (f := fun row b => loop width (fun k b => put b (row * width + k) (value k row)) b)
    (P := fun n (b : Nat → α) => row < n → b (row * width + k) = value k row) (by omega) ?_
  · exact filled inRow
  · intro next b _ before below
    rw [rowFilledAt b (fun k => value k next) (Nat.le_refl _) inside]
    by_cases here : row = next
    · subst here
      simp [inside]
    · simp only [here, false_and, if_false]
      exact before (by omega)

end ReacJack.BufferLoops
