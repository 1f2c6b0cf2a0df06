import LayerLint.Command.Cleanup
import LayerLint.Command.Shell
import LayerLint.Proofs.Chain

/-!
# What is read from a chain

Everything that is read from a command is read from a chain command by command: cleanup markers and
`yarn` stop at a joint as phrases do, and no operator of one command runs into the joint, which has
a space at either end. `yarn` alone is an install at the end of a command and also in front of the
operator, so that the joint changes nothing about it (`yarnInstalls_joint`).
-/

namespace LayerLint

/-! ## Cleanup -/

/-- A test that looks neither across a joint nor at its characters. -/
structure TestsUpToJoint (p : Text → Bool) : Prop where
  joint : ∀ a b, p (a ++ (joint ++ b)) = p a
  nil : p [] = false
  space : ∀ t, p (' ' :: t) = false
  operator : ∀ t, p ('&' :: t) = false

theorem TestsUpToJoint.anyTail_joint {p : Text → Bool} (h : TestsUpToJoint p) (a b : Text) :
    Text.anyTail p (a ++ (LayerLint.joint ++ b)) = (Text.anyTail p a || Text.anyTail p b) := by
  induction a with
  | nil => simp [LayerLint.joint, Text.anyTail, h.nil, h.space, h.operator]
  | cons c a ih =>
    have hhere : p (c :: (a ++ (LayerLint.joint ++ b))) = p (c :: a) := h.joint (c :: a) b
    simp only [List.cons_append, Text.anyTail]
    rw [hhere, ih, Bool.or_assoc]

namespace CleanupMarker

theorem afterParts?_singleton (part : Text) :
    afterParts? [part] = fun t => (part.isPrefixOf? t).bind some :=
  funext fun t => Option.bind_fun_some (part.isPrefixOf? t) |>.symm

theorem afterParts?_cons_cons (part next : Text) (parts : List Text) :
    afterParts? (part :: next :: parts) = fun t =>
      (part.isPrefixOf? t).bind fun t => (afterBlanks? t).bind (afterParts? (next :: parts)) := rfl

variable {parts : List Text} (hne : parts ≠ []) (h : ∀ part ∈ parts, PlainWord part)
include hne h

theorem stopsAtJoint_afterParts? : StopsAtJoint (afterParts? parts) := by
  induction parts with
  | nil => exact absurd rfl hne
  | cons part parts ih =>
    obtain ⟨hpart, hparts⟩ := List.forall_mem_cons.1 h
    cases parts with
    | nil =>
      rw [afterParts?_singleton]
      exact hpart.stopsAtJoint fun _ _ => rfl
    | cons next parts =>
      rw [afterParts?_cons_cons]
      exact hpart.stopsAtJoint (afterBlanks?_joint (ih (List.cons_ne_nil _ _) hparts))

theorem afterParts?_space (t : Text) : afterParts? parts (' ' :: t) = none := by
  cases parts with
  | nil => exact absurd rfl hne
  | cons part parts =>
    have hpart := (h part (List.mem_cons_self ..)).isPrefixOf?_space t
    cases parts with
    | nil => exact hpart
    | cons next parts =>
      show (part.isPrefixOf? (' ' :: t)).bind _ = none
      rw [hpart, Option.bind_none]

theorem testsUpToJoint_startsText (endsWord : Bool) :
    TestsUpToJoint (startsText { parts, endsWord }) where
  joint a b := by
    unfold startsText
    rw [(stopsAtJoint_afterParts? hne h).joint, Option.any_map]
    congr 1
    funext rest
    show (!(endsWord && startsInWord (rest ++ (joint ++ b)))) = _
    rw [startsInWord_append_joint]
  nil := by
    unfold startsText
    rw [(stopsAtJoint_afterParts? hne h).nil]
    rfl
  space t := by
    unfold startsText
    rw [afterParts?_space hne h]
    rfl
  operator t := by
    unfold startsText
    rw [(stopsAtJoint_afterParts? hne h).operator]
    rfl

end CleanupMarker

theorem TestsUpToJoint.any {α : Type} {p : α → Text → Bool} {l : List α}
    (h : ∀ x ∈ l, TestsUpToJoint (p x)) : TestsUpToJoint fun t => l.any fun x => p x t where
  joint a b := by
    induction l with
    | nil => rfl
    | cons x l ih =>
      obtain ⟨hx, hl⟩ := List.forall_mem_cons.1 h
      rw [List.any_cons, List.any_cons, hx.joint, ih hl]
  nil := List.any_eq_false.2 fun x hx => by simp [(h x hx).nil]
  space t := List.any_eq_false.2 fun x hx => by simp [(h x hx).space]
  operator t := List.any_eq_false.2 fun x hx => by simp [(h x hx).operator]

theorem hasCleanup_joint (a b : Text) :
    hasCleanup (a ++ (joint ++ b)) = (hasCleanup a || hasCleanup b) := by
  have hplain : ∀ m ∈ CleanupMarker.all, m.parts ≠ [] ∧ ∀ part ∈ m.parts, PlainWord part := by
    decide
  refine (TestsUpToJoint.any fun m hm => ?_).anyTail_joint a b
  exact CleanupMarker.testsUpToJoint_startsText (hplain m hm).1 (hplain m hm).2 m.endsWord

/-! ## JavaScript installs -/

theorem isPrefixOf_joint {word : Text} (hword : ' ' ∉ word) (a b : Text) :
    word.isPrefixOf (a ++ (joint ++ b)) = word.isPrefixOf a := by
  have h := isPrefixOf?_append_cons hword a ('&' :: '&' :: ' ' :: b)
  rw [← List.isSome_isPrefixOf?_eq_isPrefixOf, ← List.isSome_isPrefixOf?_eq_isPrefixOf]
  exact (congrArg Option.isSome h).trans Option.isSome_map

/-- At the end of a command `yarn` installs, and so it does in front of a joint. -/
theorem yarnInstalls_joint (rest b : Text) :
    yarnInstalls (rest ++ (joint ++ b)) = yarnInstalls rest := by
  cases hnext : rest.trimStart with
  | nil =>
    have hjoint : (rest ++ (joint ++ b)).trimStart = '&' :: '&' :: ' ' :: b := by
      unfold Text.trimStart at hnext ⊢
      rw [List.dropWhile_append, hnext]
      rfl
    unfold yarnInstalls
    rw [hjoint, hnext]
    rfl
  | cons c next =>
    have hne : rest ≠ [] := by
      rintro rfl
      cases hnext
    have hjoint : (rest ++ (joint ++ b)).trimStart = (c :: next) ++ (joint ++ b) := by
      unfold Text.trimStart at hnext ⊢
      rw [List.dropWhile_append, hnext]
      rfl
    have hapart : startsBlank (rest ++ (joint ++ b)) = startsBlank rest := by
      obtain ⟨d, rest, rfl⟩ := List.exists_cons_of_ne_nil hne
      rfl
    have hinstall : PlainWord "install".toList := by decide
    unfold yarnInstalls
    simp only [hjoint, hnext, hapart]
    rw [isPrefixOf_joint (by decide), isPrefixOf_joint (by decide), isPrefixOf_joint (by decide),
      (PlainWord.stopsAtJoint_afterWholeWord? hinstall).joint, Option.isSome_map]
    rfl

theorem isJsInstall_joint (a b : Text) :
    isJsInstall (a ++ (joint ++ b)) = (isJsInstall a || isJsInstall b) := by
  have hyarn : PlainWord "yarn".toList := by decide
  have hstops := PlainWord.stopsAtJoint_filter hyarn yarnInstalls_joint
  have hspace : ∀ t, (List.isPrefixOf? "yarn".toList (' ' :: t)).filter yarnInstalls = none := by
    intro t
    rw [PlainWord.isPrefixOf?_space hyarn]
    rfl
  have hnpm := PackageManager.npm.plain_installPhrase.occursIn_joint a b
  unfold isJsInstall PackageManager.installsIn
  rw [hnpm, Phrase.atWordStart?_joint hstops hspace, Option.isSome_or, Option.isSome_map]
  cases PackageManager.npm.installPhrase.occursIn a <;>
    cases PackageManager.npm.installPhrase.occursIn b <;> simp

/-! ## Steps -/

theorem chainedSteps_cons {c : Char} {t : Text} (h : c = '&' → t.head? ≠ some '&') :
    chainedSteps (c :: t) = chainedSteps t := by
  refine chainedSteps.eq_2 c t fun rest hc ht => ?_
  subst hc ht
  exact h rfl rfl

theorem chainedSteps_joint (a b : Text) :
    chainedSteps (a ++ (joint ++ b)) = chainedSteps a + chainedSteps b + 1 := by
  fun_induction chainedSteps a with
  | case1 rest ih =>
    rw [List.cons_append, List.cons_append, chainedSteps, ih]
    omega
  | case2 c rest hc ih =>
    -- a last `&` of the command meets the space of the joint
    have hhead : c = '&' → (rest ++ (joint ++ b)).head? ≠ some '&' := by
      rintro rfl hhead
      cases rest with
      | nil => cases hhead
      | cons d rest => exact hc rest rfl (by rw [Option.some.inj hhead])
    rw [List.cons_append, chainedSteps_cons hhead, ih]
  | case3 =>
    show chainedSteps b + 1 = _
    omega

/-! ## Build tools -/

theorem filter_eraseDups (p : Text → Bool) (l : List Text) :
    l.eraseDups.filter p = (l.filter p).eraseDups := by
  induction hn : l.length using Nat.strongRecOn generalizing l with
  | ind n ih =>
    subst hn
    cases l with
    | nil => rfl
    | cons x l =>
      have hlen : (l.filter fun y => !y == x).length < (x :: l).length :=
        Nat.lt_succ_of_le (List.length_filter_le _ l)
      rw [List.eraseDups_cons, List.filter_cons, List.filter_cons, ih _ hlen _ rfl]
      split
      · rw [List.eraseDups_cons, List.filter_comm]
      · next hx =>
        -- what differs from `x` is all that can pass the test
        congr 1
        rw [List.filter_filter]
        refine List.filter_congr fun y _ => ?_
        cases hy : p y with
        | false => rfl
        | true =>
          have hne : y ≠ x := fun h => hx (h ▸ hy)
          simpa using hne

theorem eraseDups_append_eq (as bs : List Text) :
    (as ++ bs).eraseDups = as.eraseDups ++ bs.eraseDups.filter fun x => x ∉ as.eraseDups := by
  rw [List.eraseDups_append, filter_eraseDups]
  congr 2
  refine List.filter_congr fun x _ => ?_
  simp [List.mem_eraseDups]

theorem installArguments_joint (a b : Text) :
    installArguments (a ++ (joint ++ b)) = installArguments a ++ installArguments b := by
  have h := installArguments_join [a, b]
  rw [Text.join_cons_cons, Text.join_singleton] at h
  simpa using h

/-- The build tools of a chain are those of the first command and the others of the second. -/
theorem installedBuildTools_joint (a b : Text) :
    installedBuildTools (a ++ (joint ++ b)) = installedBuildTools a ++
      (installedBuildTools b).filter fun tool => tool ∉ installedBuildTools a := by
  unfold installedBuildTools
  rw [installArguments_joint, List.map_append, List.filter_append, eraseDups_append_eq]

/-! ## All readings -/

namespace PackageManager

/-- The managers of both lists, in the order of the table. -/
def union (ms ms' : List PackageManager) : List PackageManager :=
  all.filter fun m => m ∈ ms ∨ m ∈ ms'

end PackageManager

theorem installManagers_joint (a b : Text) :
    installManagers (a ++ (joint ++ b)) =
      PackageManager.union (installManagers a) (installManagers b) := by
  refine List.filter_congr fun m _ => ?_
  rw [PackageManager.installsIn, m.plain_installPhrase.occursIn_joint]
  simp [mem_installManagers, PackageManager.installsIn]

theorem updateManagers_joint (a b : Text) :
    updateManagers (a ++ (joint ++ b)) =
      PackageManager.union (updateManagers a) (updateManagers b) := by
  refine List.filter_congr fun m _ => ?_
  have h := m.updatesIn_join [a, b]
  rw [Text.join_cons_cons, Text.join_singleton] at h
  rw [h]
  simp [mem_updateManagers]

/-- What is read from `c` is what is read from `a` and then from `b`. -/
structure ReadsInTurn (c a b : Text) : Prop where
  installs : installManagers c = PackageManager.union (installManagers a) (installManagers b)
  updates : updateManagers c = PackageManager.union (updateManagers a) (updateManagers b)
  cleanup : hasCleanup c = (hasCleanup a || hasCleanup b)
  js : isJsInstall c = (isJsInstall a || isJsInstall b)
  packages : installArguments c = installArguments a ++ installArguments b
  tools : installedBuildTools c = installedBuildTools a ++
    (installedBuildTools b).filter fun tool => tool ∉ installedBuildTools a
  steps : chainedSteps c = chainedSteps a + chainedSteps b + 1

/-- A chain of two commands is read as the one and then the other, whatever they are. -/
theorem readsInTurn_chain (a b : Text) : ReadsInTurn (a ++ " && ".toList ++ b) a b := by
  rw [List.append_assoc]
  exact {
    installs := installManagers_joint a b
    updates := updateManagers_joint a b
    cleanup := hasCleanup_joint a b
    js := isJsInstall_joint a b
    packages := installArguments_joint a b
    tools := installedBuildTools_joint a b
    steps := chainedSteps_joint a b }

end LayerLint
