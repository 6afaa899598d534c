import TypedReply.Error
import Mathlib.Data.List.Forall2

/-!
# Aligned lists

Two lists are aligned when their members are related one by one. Operations that go through a list
and may fail leave a list that is aligned with it.
-/

namespace TypedReply

/-- The only member of a list that passes a test is what a search for it finds. -/
theorem find?_eq_some_of_unique {α : Type} {values : List α} {test : α → Bool} {value : α}
    (isMember : value ∈ values) (passes : test value = true)
    (unique : ∀ other ∈ values, test other = true → other = value) :
    values.find? test = some value := by
  cases hit : values.find? test with
  | none => exact absurd passes (List.find?_eq_none.mp hit value isMember)
  | some other => rw [unique other (List.mem_of_find?_eq_some hit) (List.find?_some hit)]

/-- Of two aligned lists, a member of the second goes with one of the first. -/
theorem exists_left_of_mem {α β : Type} {related : α → β → Prop} {firsts : List α}
    {seconds : List β} (aligned : List.Forall₂ related firsts seconds) {second : β}
    (member : second ∈ seconds) : ∃ first ∈ firsts, related first second := by
  induction aligned with
  | nil => cases member
  | cons related aligned ih =>
      rcases List.mem_cons.mp member with rfl | member
      · exact ⟨_, List.mem_cons_self, related⟩
      · obtain ⟨first, isFirst, related⟩ := ih member
        exact ⟨first, List.mem_cons_of_mem _ isFirst, related⟩

/-- Of two aligned lists, a member of the first goes with one of the second. -/
theorem exists_right_of_mem {α β : Type} {related : α → β → Prop} {firsts : List α}
    {seconds : List β} (aligned : List.Forall₂ related firsts seconds) {first : α}
    (member : first ∈ firsts) : ∃ second ∈ seconds, related first second := by
  have flipped : List.Forall₂ (flip related) seconds firsts := aligned.flip
  exact exists_left_of_mem flipped member

/-- What stands between others is related to something that stands between those that they are related
to. -/
theorem exists_split_of_aligned {α β : Type} {related : α → β → Prop} {before after : List α}
    {first : α} {seconds : List β}
    (aligned : List.Forall₂ related (before ++ first :: after) seconds) :
    ∃ earlier second later, seconds = earlier ++ second :: later ∧ related first second ∧
      List.Forall₂ related after later := by
  induction before generalizing seconds with
  | nil =>
      cases aligned with
      | cons isFirst rest => exact ⟨[], _, _, rfl, isFirst, rest⟩
  | cons other before ih =>
      cases aligned with
      | cons isOther rest =>
          obtain ⟨earlier, second, later, rfl, isFirst, others⟩ := ih rest
          exact ⟨_ :: earlier, second, later, rfl, isFirst, others⟩

/-- What holds of both members of a pair that is related holds throughout both aligned lists. -/
theorem forall_of_aligned {α β : Type} {related : α → β → Prop} {left : α → Prop} {right : β → Prop}
    {firsts : List α} {seconds : List β} (aligned : List.Forall₂ related firsts seconds)
    (both : ∀ first second, related first second → left first ∧ right second) :
    (∀ first ∈ firsts, left first) ∧ ∀ second ∈ seconds, right second := by
  constructor
  · intro first isFirst
    obtain ⟨second, -, related⟩ := exists_right_of_mem aligned isFirst
    exact (both first second related).1
  · intro second isSecond
    obtain ⟨first, -, related⟩ := exists_left_of_mem aligned isSecond
    exact (both first second related).2

/-- Aligned lists stay aligned in what follows of members of the first. -/
theorem aligned_of_mem {α β : Type} {related implied : α → β → Prop} {firsts : List α}
    {seconds : List β} (aligned : List.Forall₂ related firsts seconds)
    (implies : ∀ first ∈ firsts, ∀ second, related first second → implied first second) :
    List.Forall₂ implied firsts seconds := by
  induction aligned with
  | nil => exact .nil
  | cons related aligned ih =>
      exact .cons (implies _ List.mem_cons_self _ related)
        (ih fun first isFirst => implies first (List.mem_cons_of_mem _ isFirst))

/-- What holds of every two members of a list holds of those that they are aligned with. -/
theorem pairwise_aligned {α β : Type} {related : α → β → Prop} {before : α → α → Prop}
    {implied : β → β → Prop} {firsts : List α} {seconds : List β}
    (aligned : List.Forall₂ related firsts seconds) (pairwise : firsts.Pairwise before)
    (implies : ∀ first later second last, related first second → related later last →
      before first later → implied second last) : seconds.Pairwise implied := by
  induction aligned with
  | nil => exact .nil
  | cons isRelated aligned ih =>
      obtain ⟨isBefore, pairwise⟩ := List.pairwise_cons.mp pairwise
      apply List.Pairwise.cons
      · intro last isLast
        obtain ⟨later, isLater, areRelated⟩ := exists_left_of_mem aligned isLast
        exact implies _ later _ last isRelated areRelated (isBefore later isLater)
      · exact ih pairwise

/-- Two lists that are aligned with a third are aligned through its members. -/
theorem aligned_through {α β γ : Type} {related : α → β → Prop} {other : α → γ → Prop}
    {firsts : List α} {seconds : List β} {thirds : List γ}
    (aligned : List.Forall₂ related firsts seconds) (others : List.Forall₂ other firsts thirds) :
    List.Forall₂ (fun second third => ∃ first ∈ firsts, related first second ∧ other first third)
      seconds thirds := by
  induction aligned generalizing thirds with
  | nil =>
      cases others
      exact .nil
  | cons related aligned ih =>
      cases others with
      | cons isOther others =>
          refine .cons ⟨_, List.mem_cons_self, related, isOther⟩ ((ih others).imp ?_)
          rintro second third ⟨first, isFirst, both⟩
          exact ⟨first, List.mem_cons_of_mem _ isFirst, both⟩

/-- Lists are aligned through a list between them exactly if their members are related through something
between these. -/
theorem aligned_comp_iff {α β γ : Type} {related : α → β → Prop} {other : β → γ → Prop}
    {firsts : List α} {thirds : List γ} :
    (∃ seconds, List.Forall₂ related firsts seconds ∧ List.Forall₂ other seconds thirds) ↔
      List.Forall₂ (fun first third => ∃ second, related first second ∧ other second third)
        firsts thirds := by
  constructor
  · rintro ⟨seconds, aligned, others⟩
    induction aligned generalizing thirds with
    | nil =>
        cases others
        exact .nil
    | cons isRelated _ ih =>
        cases others with
        | cons isOther others => exact .cons ⟨_, isRelated, isOther⟩ (ih others)
  · intro aligned
    induction aligned with
    | nil => exact ⟨[], .nil, .nil⟩
    | cons through _ ih =>
        obtain ⟨second, isRelated, isOther⟩ := through
        obtain ⟨seconds, aligned, others⟩ := ih
        exact ⟨second :: seconds, .cons isRelated aligned, .cons isOther others⟩

/-- Lists of one length are aligned as the pairs of their members. -/
theorem aligned_zip {α β : Type} {firsts : List α} {seconds : List β}
    (sameLength : firsts.length = seconds.length) :
    List.Forall₂ (fun first second => (first, second) ∈ firsts.zip seconds) firsts seconds :=
  List.forall₂_iff_zip.mpr ⟨sameLength, fun isPair => isPair⟩

/-- Every member of a list that is related to something gives an aligned list. -/
theorem exists_aligned {α β : Type} {related : α → β → Prop} {firsts : List α}
    (each : ∀ first ∈ firsts, ∃ second, related first second) :
    ∃ seconds, List.Forall₂ related firsts seconds := by
  induction firsts with
  | nil => exact ⟨[], .nil⟩
  | cons first rest ih =>
      obtain ⟨second, holds⟩ := each first List.mem_cons_self
      obtain ⟨seconds, aligned⟩ := ih fun other isOther => each other (List.mem_cons_of_mem _ isOther)
      exact ⟨second :: seconds, .cons holds aligned⟩

/-- What goes with each pair of related members of aligned lists is aligned with both lists. -/
theorem exists_aligned_both {α β γ : Type} {related : α → β → Prop} {goes : α → γ → Prop}
    {meets : β → γ → Prop} {firsts : List α} {seconds : List β}
    (aligned : List.Forall₂ related firsts seconds)
    (each : ∀ first ∈ firsts, ∀ second ∈ seconds, related first second →
      ∃ third, goes first third ∧ meets second third) :
    ∃ thirds, List.Forall₂ goes firsts thirds ∧ List.Forall₂ meets seconds thirds := by
  induction aligned with
  | nil => exact ⟨[], .nil, .nil⟩
  | cons isRelated _ ih =>
      obtain ⟨third, isGoing, isMet⟩ :=
        each _ List.mem_cons_self _ List.mem_cons_self isRelated
      obtain ⟨thirds, going, met⟩ := ih fun first isFirst second isSecond =>
        each first (List.mem_cons_of_mem _ isFirst) second (List.mem_cons_of_mem _ isSecond)
      exact ⟨third :: thirds, .cons isGoing going, .cons isMet met⟩

/-- Images that agree on related members agree on aligned lists. -/
theorem map_eq_of_aligned {α β γ : Type} {related : α → β → Prop} {image : α → γ} {other : β → γ}
    {firsts : List α} {seconds : List β} (aligned : List.Forall₂ related firsts seconds)
    (agree : ∀ first ∈ firsts, ∀ second, related first second → image first = other second) :
    firsts.map image = seconds.map other := by
  have same : List.Forall₂ (· = ·) (firsts.map image) (seconds.map other) :=
    List.forall₂_map_left_iff.mpr (List.forall₂_map_right_iff.mpr (aligned_of_mem aligned agree))
  rwa [List.forall₂_eq_eq_eq] at same

/-- Pairs of members of two lists of one length are aligned with a third list as the members of the first
are with pairs of the other two. -/
theorem aligned_zip_iff {α β γ : Type} {related : α → β → γ → Prop} {firsts : List α}
    {seconds : List β} {thirds : List γ} (sameLength : seconds.length = thirds.length) :
    firsts.length = seconds.length ∧
        List.Forall₂ (fun pair third => related pair.1 pair.2 third) (firsts.zip seconds) thirds ↔
      List.Forall₂ (fun first pair => related first pair.1 pair.2) firsts (seconds.zip thirds) := by
  induction firsts generalizing seconds thirds with
  | nil =>
      cases seconds with
      | nil => simp [List.eq_nil_of_length_eq_zero sameLength.symm]
      | cons second seconds =>
          cases thirds with
          | nil => cases sameLength
          | cons third thirds => simp
  | cons first firsts ih =>
      cases seconds with
      | nil => simp
      | cons second seconds =>
          cases thirds with
          | nil => cases sameLength
          | cons third thirds =>
              simp only [List.length_cons, List.zip_cons_cons, List.forall₂_cons,
                Nat.add_right_cancel_iff,
                ← ih (Nat.succ.inj sameLength)]
              exact and_left_comm

/-- What the first members of pairs are aligned with is aligned with the pairs. -/
theorem aligned_fst_iff {α β γ : Type} {related : α → γ → Prop} {firsts : List α} {seconds : List β}
    {thirds : List γ} (sameLength : firsts.length = seconds.length) :
    List.Forall₂ (fun pair third => related pair.1 third) (firsts.zip seconds) thirds ↔
      List.Forall₂ related firsts thirds := by
  have isFirsts : (firsts.zip seconds).map Prod.fst = firsts := List.map_fst_zip
    (Nat.le_of_eq sameLength)
  calc _ ↔ List.Forall₂ related ((firsts.zip seconds).map Prod.fst) thirds :=
        List.forall₂_map_left_iff.symm
    _ ↔ _ := by rw [isFirsts]

/-! ## Optional values -/

/-- Optional values stay related in what follows of the values that there are. -/
theorem rel_imp {α β : Type} {related implied : α → β → Prop} {value : Option α} {other : Option β}
    (rel : Option.Rel related value other) (implies : ∀ first second, value = some first →
      other = some second → related first second → implied first second) :
    Option.Rel implied value other := by
  cases rel with
  | none => exact .none
  | some isRelated => exact .some (implies _ _ rfl rfl isRelated)

/-- What follows of optional values that are related is related. -/
theorem rel_bind {α β γ δ : Type} {related : α → β → Prop} {implied : γ → δ → Prop}
    {value : Option α} {other : Option β} (rel : Option.Rel related value other)
    {next : α → Option γ} {nextOther : β → Option δ} (rest : ∀ first second, value = some first →
      related first second → Option.Rel implied (next first) (nextOther second)) :
    Option.Rel implied (value.bind next) (other.bind nextOther) := by
  cases rel with
  | none => exact .none
  | some isRelated => exact rest _ _ rfl isRelated

/-- The first of two optional values that there is is related to the first of two others. -/
theorem rel_or {α β : Type} {related : α → β → Prop} {first second : Option α}
    {other last : Option β} (firsts : Option.Rel related first other)
    (seconds : Option.Rel related second last) :
    Option.Rel related (first.or second) (other.or last) := by
  cases firsts with
  | none => exact seconds
  | some isRelated => exact .some isRelated

/-- Optional values that are related stay so with related values in their absence. -/
theorem rel_getD {α β : Type} {related : α → β → Prop} {value : Option α} {other : Option β}
    (rel : Option.Rel related value other) {absent : α} {otherAbsent : β}
    (isRelated : related absent otherAbsent) :
    related (value.getD absent) (other.getD otherAbsent) := by
  cases rel with
  | none => exact isRelated
  | some isRelated => exact isRelated

theorem isSome_of_rel {α β : Type} {related : α → β → Prop} {value : Option α} {other : Option β}
    (rel : Option.Rel related value other) : value.isSome = other.isSome := by
  cases rel <;> rfl

/-! ## Searching -/

/-- Searches that agree on related members find related members of aligned lists. -/
theorem find?_aligned {α β : Type} {related : α → β → Prop} {test : α → Bool} {other : β → Bool}
    {firsts : List α} {seconds : List β} (aligned : List.Forall₂ related firsts seconds)
    (agree : ∀ first second, related first second → test first = other second) :
    Option.Rel related (firsts.find? test) (seconds.find? other) := by
  induction aligned with
  | nil => exact .none
  | @cons first second _ _ isRelated _ ih =>
      rw [List.find?_cons, List.find?_cons, agree first second isRelated]
      cases other second with
      | true => exact .some isRelated
      | false => exact ih

/-- What passes tests that agree on related members of aligned lists is aligned. -/
theorem filter_aligned {α β : Type} {related : α → β → Prop} {test : α → Bool} {other : β → Bool}
    {firsts : List α} {seconds : List β} (aligned : List.Forall₂ related firsts seconds)
    (agree : ∀ first second, related first second → test first = other second) :
    List.Forall₂ related (firsts.filter test) (seconds.filter other) := by
  apply List.rel_filter _ aligned
  intro first second isRelated
  change test first = true ↔ other second = true
  rw [agree first second isRelated]

/-- Aligned lists that are paired with aligned lists stay aligned. -/
theorem zip_aligned {α β γ δ : Type} {related : α → β → Prop} {other : γ → δ → Prop}
    {firsts : List α} {seconds : List β} {thirds : List γ} {fourths : List δ}
    (aligned : List.Forall₂ related firsts seconds) (others : List.Forall₂ other thirds fourths) :
    List.Forall₂ (fun first second => related first.1 second.1 ∧ other first.2 second.2)
      (firsts.zip thirds) (seconds.zip fourths) := by
  induction aligned generalizing thirds fourths with
  | nil => exact .nil
  | cons isRelated _ ih =>
      cases others with
      | nil => exact .nil
      | cons isOther others => exact .cons ⟨isRelated, isOther⟩ (ih others)

/-- What only one member of a list passes is found in any order. -/
theorem find?_eq_of_perm {α : Type} {test : α → Bool} {values others : List α}
    (perm : values.Perm others) (unique : ∀ value ∈ values, ∀ other ∈ values,
      test value = true → test other = true → value = other) :
    values.find? test = others.find? test := by
  cases found : values.find? test with
  | none =>
      symm
      rw [List.find?_eq_none] at found ⊢
      intro value isOther
      exact found value (perm.mem_iff.mpr isOther)
  | some value =>
      have isValue := List.mem_of_find?_eq_some found
      have passes := List.find?_some found
      cases foundOther : others.find? test with
      | none => exact absurd passes (List.find?_eq_none.mp foundOther value (perm.mem_iff.mp isValue))
      | some other =>
          have isOther := perm.mem_iff.mpr (List.mem_of_find?_eq_some foundOther)
          rw [unique value isValue other isOther passes (List.find?_some foundOther)]

/-- The last members of aligned lists are related. -/
theorem getLast?_aligned {α β : Type} {related : α → β → Prop} {firsts : List α} {seconds : List β}
    (aligned : List.Forall₂ related firsts seconds) :
    Option.Rel related firsts.getLast? seconds.getLast? := by
  have reversed := List.rel_reverse aligned
  rw [List.getLast?_eq_head?_reverse, List.getLast?_eq_head?_reverse]
  generalize firsts.reverse = fronts at reversed ⊢
  generalize seconds.reverse = backs at reversed ⊢
  cases reversed with
  | nil => exact .none
  | cons isRelated _ => exact .some isRelated

/-- Tests that agree on related members are passed by aligned lists alike. -/
theorem any_aligned {α β : Type} {related : α → β → Prop} {test : α → Bool} {other : β → Bool}
    {firsts : List α} {seconds : List β} (aligned : List.Forall₂ related firsts seconds)
    (agree : ∀ first second, related first second → test first = other second) :
    firsts.any test = seconds.any other := by
  induction aligned with
  | nil => rfl
  | cons isRelated _ ih => rw [List.any_cons, List.any_cons, agree _ _ isRelated, ih]

/-- Tests that agree on related members are passed by all of one list and all of an aligned one. -/
theorem all_aligned {α β : Type} {related : α → β → Prop} {test : α → Bool} {other : β → Bool}
    {firsts : List α} {seconds : List β} (aligned : List.Forall₂ related firsts seconds)
    (agree : ∀ first second, related first second → test first = other second) :
    firsts.all test = seconds.all other := by
  induction aligned with
  | nil => rfl
  | cons isRelated _ ih => rw [List.all_cons, List.all_cons, agree _ _ isRelated, ih]

/-! ## Outcomes -/

variable {ε α β : Type}

theorem bind_eq_ok_iff {outcome : Except ε α} {next : α → Except ε β} {result : β} :
    (outcome >>= next) = .ok result ↔ ∃ value, outcome = .ok value ∧ next value = .ok result := by
  cases outcome with
  | error failure => simp [bind, Except.bind]
  | ok value => simp [bind, Except.bind]

/-- What follows an outcome of which it is known when it succeeds and with what. -/
theorem bind_eq_ok_iff_of_known {outcome : Except ε α} {next : α → Except ε β} {succeeds : Prop}
    {image : α} (known : ∀ value, outcome = .ok value ↔ succeeds ∧ value = image) {result : β} :
    (outcome >>= next) = .ok result ↔ succeeds ∧ next image = .ok result := by
  rw [bind_eq_ok_iff]
  constructor
  · rintro ⟨_, isValue, follows⟩
    obtain ⟨holds, rfl⟩ := (known _).mp isValue
    exact ⟨holds, follows⟩
  · rintro ⟨holds, follows⟩
    exact ⟨image, (known image).mpr ⟨holds, rfl⟩, follows⟩

theorem map_eq_ok_iff {outcome : Except ε α} {image : α → β} {result : β} :
    outcome.map image = .ok result ↔ ∃ value, outcome = .ok value ∧ image value = result := by
  cases outcome <;> simp [Except.map]

/-- What an operation makes of a list is aligned with it. -/
theorem mapM_eq_ok_iff {operation : α → Except ε β} {values : List α} {results : List β} :
    values.mapM operation = .ok results ↔
      List.Forall₂ (fun value result => operation value = .ok result) values results := by
  induction values generalizing results with
  | nil => simp [pure, Except.pure, eq_comm]
  | cons value rest ih =>
      simp only [List.mapM_cons, bind_eq_ok_iff, List.forall₂_cons_left_iff, ih]
      constructor
      · rintro ⟨first, isFirst, others, aligned, done⟩
        cases done
        exact ⟨first, others, isFirst, aligned, rfl⟩
      · rintro ⟨first, others, isFirst, aligned, rfl⟩
        exact ⟨first, isFirst, others, aligned, rfl⟩

/-- What an operation that may give nothing makes of a list is aligned with it. -/
theorem mapM_eq_some_iff {operation : α → Option β} {values : List α} {results : List β} :
    values.mapM operation = some results ↔
      List.Forall₂ (fun value result => operation value = some result) values results := by
  induction values generalizing results with
  | nil => simp [eq_comm]
  | cons value rest ih =>
      simp only [List.mapM_cons, Option.bind_eq_bind, Option.bind_eq_some_iff, Option.pure_def,
        Option.some.injEq, List.forall₂_cons_left_iff, ih]
      constructor
      · rintro ⟨first, isFirst, others, aligned, rfl⟩
        exact ⟨first, others, isFirst, aligned, rfl⟩
      · rintro ⟨first, others, isFirst, aligned, rfl⟩
        exact ⟨first, isFirst, others, aligned, rfl⟩

/-- An operation that succeeds on every member of a list goes through the list. -/
theorem mapM_eq_ok_map {operation : α → Except ε β} {image : α → β} {values : List α}
    (each : ∀ value ∈ values, operation value = .ok (image value)) :
    values.mapM operation = .ok (values.map image) := by
  rw [mapM_eq_ok_iff, List.forall₂_map_right_iff, List.forall₂_same]
  exact each

/-- An operation whose successes are known on every member of a list goes through the list exactly if
it succeeds on all of them. -/
theorem mapM_eq_ok_iff_map {operation : α → Except ε β} {image : α → β} {succeeds : α → Prop}
    {values : List α} (each : ∀ value ∈ values, ∀ result,
      operation value = .ok result ↔ succeeds value ∧ result = image value) {results : List β} :
    values.mapM operation = .ok results ↔
      (∀ value ∈ values, succeeds value) ∧ results = values.map image := by
  rw [mapM_eq_ok_iff]
  induction values generalizing results with
  | nil => simp
  | cons value rest ih =>
      rw [List.forall_mem_cons] at each
      simp only [List.forall₂_cons_left_iff, each.1, ih each.2, List.forall_mem_cons, List.map_cons]
      constructor
      · rintro ⟨_, _, ⟨first, rfl⟩, ⟨others, rfl⟩, rfl⟩
        exact ⟨⟨first, others⟩, rfl⟩
      · rintro ⟨⟨first, others⟩, rfl⟩
        exact ⟨_, _, ⟨first, rfl⟩, ⟨others, rfl⟩, rfl⟩

/-- Operations that do the same on every member of a list go through the list alike. -/
theorem mapM_congr {operation other : α → Except ε β} {values : List α}
    (same : ∀ value ∈ values, operation value = other value) :
    values.mapM operation = values.mapM other := by
  induction values with
  | nil => rfl
  | cons value rest ih =>
      rw [List.mapM_cons, List.mapM_cons, same value List.mem_cons_self,
        ih fun later isLater => same later (List.mem_cons_of_mem _ isLater)]

/-- An operation whose results are put into another form goes through a list as it does without. -/
theorem mapM_map {γ : Type} (operation : α → Except ε β) (image : β → γ) (values : List α) :
    (values.mapM fun value => (operation value).map image) =
      (values.mapM operation).map (List.map image) := by
  induction values with
  | nil => rfl
  | cons value rest ih =>
      rw [List.mapM_cons, List.mapM_cons, ih]
      cases operation value <;> cases rest.mapM operation <;> rfl

end TypedReply
