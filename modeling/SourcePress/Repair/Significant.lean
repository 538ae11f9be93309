import SourcePress.Text.Blank

/-!
# Significant neighbours

The nearest code points of a text, before an offset and from it on, that are not blank. An offset
before the start counts from the end; looking beyond the text is an error.
-/

namespace SourcePress.Repair

/-- The nearest code point before an offset that is not blank. -/
def previousSignificant? (t : Text) (offset : Int) : Except OutOfText (Option CodePoint) :=
  if t.length < offset then .error ⟨offset - 1⟩
  else .ok ((t.take offset.toNat).reverse.find? fun c => !c.isBlank)

/-- The nearest code point from an offset on that is not blank. From an offset counted from the
end, the search goes on at the start of the text. -/
def nextSignificant? (t : Text) (offset : Int) : Except OutOfText (Option CodePoint) :=
  if offset < -t.length then .error ⟨offset⟩
  else
    let ahead := if offset < 0 then t.slice offset t.length ++ t else t.drop offset.toNat
    .ok (ahead.find? fun c => !c.isBlank)

end SourcePress.Repair
