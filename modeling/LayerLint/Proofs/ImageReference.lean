import LayerLint.Dockerfile.Image
import LayerLint.Proofs.Text

/-!
# Image references

A reference is a name, perhaps a tag, and perhaps a digest (`Image.Reference`). The digest is cut
off at the first `@`, and what is left has a tag when its last colon has no slash behind it
(`withoutTag`). A colon in front of the last slash belongs to the name, so the name is read back
from every reference (`name_exact`).
-/

namespace LayerLint

namespace Text

theorem before_append_cons {stop : Char} {a : Text} (ha : stop ∉ a) (b : Text) :
    before stop (a ++ stop :: b) = a := by
  have hkeep : ∀ c ∈ a, (c != stop) = true := fun c hc =>
    bne_iff_ne.2 fun heq => ha (heq ▸ hc)
  exact takeWhile_append_of_stop hkeep (by simp)

theorem before_of_notMem {stop : Char} {a : Text} (ha : stop ∉ a) : before stop a = a :=
  List.takeWhile_eq_self_iff.2 fun _ hc => bne_iff_ne.2 fun heq => ha (heq ▸ hc)

theorem notMem_before (stop : Char) (t : Text) : stop ∉ before stop t := fun hmem =>
  absurd (List.all_eq_true.1 List.all_takeWhile stop hmem) (by simp)

theorem afterLast_append_cons {stop : Char} {b : Text} (hb : stop ∉ b) (a : Text) :
    afterLast stop (a ++ stop :: b) = b := by
  have hrev : (a ++ stop :: b).reverse = b.reverse ++ stop :: a.reverse := by simp
  show (before stop (a ++ stop :: b).reverse).reverse = b
  rw [hrev, before_append_cons (by simpa using hb), List.reverse_reverse]

/-- The text around the last of the characters that are equal to `c`. -/
theorem exists_last_of_mem {c : Char} {t : Text} (h : c ∈ t) : ∃ a b, t = a ++ c :: b ∧ c ∉ b := by
  obtain ⟨b, a, hrev, hb⟩ := List.eq_append_cons_of_mem (List.mem_reverse.2 h)
  refine ⟨a.reverse, b.reverse, ?_, by simpa using hb⟩
  simpa using congrArg List.reverse hrev

end Text

namespace Image

/-! ## The last component of a name -/

def lastComponent (t : Text) : Text := (t.splitOn '/').getLastD []

theorem lastComponent_of_notMem {t : Text} (h : '/' ∉ t) : lastComponent t = t := by
  unfold lastComponent
  rw [List.splitOn_eq_singleton h]
  rfl

theorem lastComponent_append_cons {b : Text} (hb : '/' ∉ b) (a : Text) :
    lastComponent (a ++ '/' :: b) = b := by
  unfold lastComponent
  rw [List.splitOn_append_cons_self, List.splitOn_eq_singleton hb, List.getLastD_concat]

theorem lastComponent_append {b : Text} (hb : '/' ∉ b) (a : Text) :
    lastComponent (a ++ b) = lastComponent a ++ b := by
  by_cases ha : '/' ∈ a
  · obtain ⟨u, v, rfl, hv⟩ := Text.exists_last_of_mem ha
    have hvb : '/' ∉ v ++ b := fun h => (List.mem_append.1 h).elim hv hb
    rw [List.append_assoc, List.cons_append, lastComponent_append_cons hvb,
      lastComponent_append_cons hv]
  · have hab : '/' ∉ a ++ b := fun h => (List.mem_append.1 h).elim ha hb
    rw [lastComponent_of_notMem hab, lastComponent_of_notMem ha]

/-! ## The tag -/

def withoutTag (named : Text) : Text :=
  let tag := named.afterLast ':'
  if named.contains ':' && !tag.contains '/' then named.take (named.length - tag.length - 1)
  else named

theorem name_eq (reference : Text) : name reference = withoutTag (reference.before '@') := rfl

theorem withoutTag_append_cons {tag : Text} (hcolon : ':' ∉ tag) (a : Text) :
    withoutTag (a ++ ':' :: tag) = if '/' ∈ tag then a ++ ':' :: tag else a := by
  have hlength : (a ++ ':' :: tag).length - tag.length - 1 = a.length := by
    rw [List.length_append, List.length_cons]
    omega
  unfold withoutTag
  simp only [Text.afterLast_append_cons hcolon, hlength, List.take_left']
  by_cases hslash : '/' ∈ tag <;> simp [hslash]

theorem withoutTag_of_component {t : Text} (h : ':' ∉ lastComponent t) : withoutTag t = t := by
  by_cases hcolon : ':' ∈ t
  · obtain ⟨a, b, rfl, hb⟩ := Text.exists_last_of_mem hcolon
    have hslash : '/' ∈ b := by
      by_contra hslash
      have hslash : '/' ∉ ':' :: b := by simpa using hslash
      rw [lastComponent_append hslash] at h
      exact h (List.mem_append_right _ (List.mem_cons_self ..))
    rw [withoutTag_append_cons hb, if_pos hslash]
  · simp [withoutTag, hcolon]

theorem withoutTag_isPrefix (t : Text) : withoutTag t <+: t := by
  unfold withoutTag
  dsimp only
  split
  · exact List.take_prefix _ _
  · exact List.prefix_rfl

/-! ## References -/

/-- A reference by its parts. The marks of a tag and of a digest cannot be mistaken: the name has no
`@` and no colon in its last component, and the tag has neither of them and no slash. -/
structure Reference where
  name : Text
  tag : Option Text
  digest : Option Text
  name_plain : '@' ∉ name
  component_plain : ':' ∉ lastComponent name
  tag_plain : ∀ t ∈ tag, '/' ∉ t ∧ ':' ∉ t ∧ '@' ∉ t

namespace Reference

def named (r : Reference) : Text := r.name ++ r.tag.elim [] (':' :: ·)

def text (r : Reference) : Text := r.named ++ r.digest.elim [] ('@' :: ·)

theorem notMem_named (r : Reference) : '@' ∉ r.named := by
  unfold named
  cases htag : r.tag with
  | none => simpa using r.name_plain
  | some tag => simpa using ⟨r.name_plain, (r.tag_plain tag htag).2.2⟩

theorem before_text (r : Reference) : r.text.before '@' = r.named := by
  unfold text
  cases r.digest with
  | none =>
    show Text.before '@' (r.named ++ []) = r.named
    rw [List.append_nil, Text.before_of_notMem r.notMem_named]
  | some digest => exact Text.before_append_cons r.notMem_named digest

theorem withoutTag_named (r : Reference) : withoutTag r.named = r.name := by
  unfold named
  cases htag : r.tag with
  | none =>
    show withoutTag (r.name ++ []) = r.name
    rw [List.append_nil, withoutTag_of_component r.component_plain]
  | some tag =>
    obtain ⟨hslash, hcolon, -⟩ := r.tag_plain tag htag
    show withoutTag (r.name ++ ':' :: tag) = r.name
    rw [withoutTag_append_cons hcolon, if_neg hslash]

end Reference

theorem name_isPrefix (reference : Text) : name reference <+: reference :=
  (withoutTag_isPrefix _).trans (List.takeWhile_prefix _)

theorem notMem_name (reference : Text) : '@' ∉ name reference := fun hmem =>
  Text.notMem_before '@' reference ((withoutTag_isPrefix _).subset hmem)

theorem name_append_suffix (reference : Text) : name reference ++ suffix reference = reference := by
  unfold suffix
  rw [← List.prefix_iff_eq_append]
  exact name_isPrefix reference

/-- The name is read back from a reference, whatever colons and slashes stand in the name before its
last component and in the digest. Of any text at all the name is a front part without `@`, and the
offset behind it lies between two characters, with the tag and the digest behind it. -/
theorem name_exact :
    (∀ r : Reference, name r.text = r.name) ∧
    ∀ image : Text, name image <+: image ∧ '@' ∉ name image ∧
      Text.CutAt (name image).byteCount image (name image) (suffix image) := by
  refine ⟨fun r => ?_, fun image => ⟨name_isPrefix image, notMem_name image, ?_⟩⟩
  · rw [name_eq, r.before_text, r.withoutTag_named]
  · have hcut := Text.cutAt_append (name image) (suffix image)
    rwa [name_append_suffix] at hcut

example : name "localhost:5000/team/app:1.2@sha256:a/b:c@d".toList =
    "localhost:5000/team/app".toList := by decide

end Image

end LayerLint
