import MacroHost.Text.Blank

/-!
# Metadata headers

A stored macro may begin with a header in comments.  Stripping it removes everything up to the first
end marker and the line breaks right after that marker.
-/

namespace MacroHost
namespace Macros

open Text

/-- How a header begins. -/
def headerStart : List Char := "--[[metadata".toList

/-- How a header ends. -/
def headerEnd : List Char := "--[[end-metadata]]".toList

/-- What follows the first occurrence of a marker. -/
def afterMarker? (marker : List Char) : List Char → Option (List Char)
  | [] => if marker.isEmpty then some [] else none
  | c :: rest =>
      if marker.isPrefixOf (c :: rest) then some ((c :: rest).drop marker.length)
      else afterMarker? marker rest

/-- Whether a character breaks a line. -/
def isLineBreak (c : Char) : Bool := c == '\r' || c == '\n'

/-- A macro without its header, if it has a complete one. -/
def stripHeader (content : List Char) : List Char :=
  if headerStart.isPrefixOf (dropBlanks content) then
    match afterMarker? headerEnd content with
    | some rest => rest.dropWhile isLineBreak
    | none => content
  else content

/-- The text of a macro without its header. -/
def bodyText (content : String) : String :=
  .ofList (stripHeader content.toList)

end Macros
end MacroHost
