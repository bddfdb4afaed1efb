import Mathlib.Data.List.Chain

/-! Blocks laid along a line one after the other. Each carries a mark that never goes
down; between two successive blocks of one mark there is no gap. The place and the mark
that the next block would get are part of the predicate. -/
namespace ReacJack.BlockLayout

variable {β : Type} {start length mark : β → Nat}

structure Laid (start length mark : β → Nat) (blocks : List β) (now finish : Nat) : Prop where
  apart : blocks.Pairwise (fun a b => start a + length a ≤ start b)
  joined : blocks.IsChain (fun a b => mark a = mark b → start b = start a + length a)
  behind : ∀ block ∈ blocks, start block + length block ≤ finish ∧ mark block ≤ now
  last : ∀ block ∈ blocks.getLast?, mark block = now → start block + length block = finish

theorem laidNothing (now finish : Nat) : Laid start length mark [] now finish :=
  ⟨List.Pairwise.nil,List.IsChain.nil,fun _ => nofun,fun _ => nofun⟩

theorem laidNext {blocks : List β} {block : β} {now finish : Nat} (laid : Laid start length mark blocks now finish)
    (here : start block = finish) (marked : mark block = now) :
    Laid start length mark (blocks ++ [block]) now (finish + length block) := by
  obtain ⟨apart,joined,behind,last⟩ := laid
  refine ⟨?_,?_,?_,?_⟩
  · refine List.pairwise_append.mpr ⟨apart,List.pairwise_singleton _ _,fun a old b new => ?_⟩
    obtain rfl := List.mem_singleton.mp new
    rw [here]
    exact (behind a old).1
  · refine joined.append (List.IsChain.singleton block) fun a old b new same => ?_
    obtain rfl := Option.some.inj new
    rw [here, last a old (same.trans marked)]
  · intro b member
    rcases List.mem_append.mp member with old | new
    · exact ⟨(behind b old).1.trans (Nat.le_add_right _ _),(behind b old).2⟩
    · obtain rfl := List.mem_singleton.mp new
      rw [here, marked]
      exact ⟨Nat.le_refl _,Nat.le_refl _⟩
  · intro b final _
    rw [List.getLast?_concat] at final
    obtain rfl := Option.some.inj final
    rw [here]

theorem laidGap {blocks : List β} {now finish later : Nat} (laid : Laid start length mark blocks now finish)
    (further : finish ≤ later) : Laid start length mark blocks (now + 1) later := by
  refine ⟨laid.apart,laid.joined,fun block member => ?_,fun block final same => ?_⟩
  · obtain ⟨below,marked⟩ := laid.behind block member
    exact ⟨below.trans further,marked.trans (Nat.le_succ _)⟩
  · have := (laid.behind block (List.mem_of_getLast? final)).2
    omega

end ReacJack.BlockLayout
