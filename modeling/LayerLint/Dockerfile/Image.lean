import LayerLint.Text

/-!
# Image references

A reference is a name, then perhaps `:` and a tag, then perhaps `@` and a digest. A colon starts a
tag only behind the last slash, so that the number behind the host of a registry belongs to the
name.
-/

namespace LayerLint.Image

/-- The reference without tag and digest. -/
def name (reference : Text) : Text :=
  let named := reference.before '@'
  let tag := named.afterLast ':'
  if named.contains ':' && !tag.contains '/' then named.take (named.length - tag.length - 1)
  else named

/-- The tag and the digest with their marks. -/
def suffix (reference : Text) : Text := reference.drop (name reference).length

end LayerLint.Image
