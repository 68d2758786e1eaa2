/-!
# Request syntax

The parts of a request's syntax that decide whether there is a request at all: methods are tokens,
header values have no control octets other than tabs. The first `Accept` header of a request counts,
and only if all of it is printable ASCII.
-/

namespace Telemetry.Http

/-- The characters of tokens other than letters and digits. -/
def tokenMarks : List Char := "!#$%&'*+-.^_`|~".toList

/-- Whether a character may stand in a token. -/
def isTokenChar (c : Char) : Bool := c.isAlphanum || tokenMarks.contains c

/-- Whether a text is a method. -/
def isMethod (s : String) : Bool := !s.isEmpty && s.toList.all isTokenChar

/-- Whether an octet may stand in a header value. -/
def isHeaderOctet (b : UInt8) : Bool := b == 0x09 || (0x20 ≤ b && b != 0x7f)

/-- Whether a text may be a header value. -/
def isHeaderValue (s : String) : Bool := s.toUTF8.toList.all isHeaderOctet

/-- Whether an octet of a header value is read as a character. -/
def isPlainOctet (b : UInt8) : Bool := b == 0x09 || (0x20 ≤ b && b ≤ 0x7e)

/-- The `Accept` value of a request with these `Accept` headers. -/
def acceptValue (headers : List String) : Option String :=
  headers.head?.filter fun s => s.toUTF8.toList.all isPlainOctet

/-- Without an `Accept` header there is no value. -/
@[simp] theorem acceptValue_nil : acceptValue [] = none := rfl

end Telemetry.Http
