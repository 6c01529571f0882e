import ConfigDecl.Markup.Scan

/-! # The stream of a source

Every event consumes at least one byte of the source, so scanning goes on until
the source ends or a fault is found, and no longer. -/

set_option autoImplicit false

namespace ConfigDecl.Markup

/-! ## Progress -/

theorem upTo_length (mark : UInt8) (bytes : Bytes) :
    (upTo mark bytes).1.length + ((upTo mark bytes).2.getD []).length ≤ bytes.length := by
  induction bytes with
  | nil => simp [upTo]
  | cons b rest ih =>
      simp only [upTo]
      split
      · simp
      · simp only [List.length_cons]
        omega

theorem upToTagEnd_length (mark : Option UInt8) (bytes : Bytes) :
    (upToTagEnd mark bytes).1.length + ((upToTagEnd mark bytes).2.getD []).length ≤
      bytes.length := by
  induction bytes generalizing mark with
  | nil => simp [upToTagEnd]
  | cons b rest ih =>
      simp only [upToTagEnd]
      split
      · simp
      · have := ih (quoteAfter mark b)
        simp only [List.length_cons]
        omega

theorem upTo_rest_lt (mark b : UInt8) (rest : Bytes) :
    ((upTo mark (b :: rest)).2.getD []).length < (b :: rest).length := by
  simp only [upTo]
  split
  · simp
  · have := upTo_length mark rest
    simp only [List.length_cons]
    omega

theorem upToTagEnd_rest_lt (mark : Option UInt8) (b : UInt8) (rest : Bytes) :
    ((upToTagEnd mark (b :: rest)).2.getD []).length < (b :: rest).length := by
  simp only [upToTagEnd]
  split
  · simp
  · have := upToTagEnd_length (quoteAfter mark b) rest
    simp only [List.length_cons]
    omega

theorem upToClosing_rest_lt (closes : Bytes → Bool) {before bytes content after : Bytes}
    (found : upToClosing closes before bytes = some (content, after)) :
    after.length < bytes.length := by
  induction bytes generalizing before with
  | nil => simp [upToClosing] at found
  | cons b rest ih =>
      simp only [upToClosing] at found
      split at found
      · cases found
        simp
      · exact Nat.lt_succ_of_lt (ih found)

namespace Scanner

theorem declaration_rest_lt {scanner next : Scanner} {event : Event}
    (read : scanner.declaration = .event event next) :
    next.rest.length < scanner.rest.length := by
  unfold declaration at read
  split at read
  · cases read
  · next b rest more =>
      split at read
      · cases read
      · split at read
        · cases read
        · next found =>
            dsimp only at read
            split at read
            · cases read
            · cases read
              have shorter := upToClosing_rest_lt _ found
              have dropped : (b :: rest).length ≤ scanner.rest.length := by
                rw [← more]
                simp
              exact Nat.lt_of_lt_of_le shorter dropped

theorem endTag_rest_lt {scanner next : Scanner} {event : Event} {b : UInt8} {rest : Bytes}
    (front : scanner.rest = b :: rest) (read : scanner.endTag = .event event next) :
    next.rest.length < scanner.rest.length := by
  unfold endTag at read
  dsimp only at read
  split at read
  · cases read
  · split at read
    · cases read
      simpa only [inText, front] using upTo_rest_lt Byte.greater b rest
    · cases read

theorem instruction_rest_lt {scanner next : Scanner} {event : Event} {b : UInt8}
    {rest : Bytes} (front : scanner.rest = b :: rest)
    (read : scanner.instruction = .event event next) :
    next.rest.length < scanner.rest.length := by
  unfold instruction at read
  dsimp only at read
  split at read
  · cases read
    simpa only [inText, front] using upTo_rest_lt Byte.greater b rest
  · cases read

theorem elementTag_rest_lt {scanner next : Scanner} {event : Event} {b : UInt8}
    {rest : Bytes} (front : scanner.rest = b :: rest)
    (read : scanner.elementTag = .event event next) :
    next.rest.length < scanner.rest.length := by
  unfold elementTag at read
  dsimp only at read
  split at read <;> cases read <;>
    simpa only [inText, front] using upToTagEnd_rest_lt none b rest

theorem tag_rest_lt {scanner next : Scanner} {event : Event}
    (read : scanner.tag = .event event next) :
    next.rest.length < scanner.rest.length := by
  unfold tag at read
  split at read
  · cases read
  · next front =>
      split at read
      · exact declaration_rest_lt read
      split at read
      · exact endTag_rest_lt front read
      split at read
      · exact instruction_rest_lt front read
      · exact elementTag_rest_lt front read

theorem text_rest_lt {scanner next : Scanner} {event : Event} {b : UInt8} {rest : Bytes}
    (front : scanner.rest = b :: rest) (read : scanner.text = .event event next) :
    next.rest.length < scanner.rest.length := by
  unfold text at read
  dsimp only at read
  cases read
  simpa only [front] using upTo_rest_lt Byte.less b rest

/-- Every event consumes at least one byte. -/
theorem step_rest_lt {scanner next : Scanner} {event : Event}
    (read : scanner.step = .event event next) :
    next.rest.length < scanner.rest.length := by
  unfold step at read
  split at read
  · exact tag_rest_lt read
  · split at read
    · cases read
    · next front =>
        split at read
        · have shorter := tag_rest_lt read
          rw [front]
          exact Nat.lt_succ_of_lt shorter
        · exact text_rest_lt front read

/-! ## The whole stream -/

def stream (scanner : Scanner) : Stream :=
  match _read : scanner.step with
  | .event event next => .next event next.offset next.stream
  | .done offset => .done offset
  | .fault fault offset => .faulty fault offset
termination_by scanner.rest.length
decreasing_by exact step_rest_lt _read

def byteOrderMark : Bytes := [0xEF, 0xBB, 0xBF]

/-- The number of bytes of the byte order mark that the source may begin with. -/
def markOf (source : Bytes) : Nat :=
  if startsWith byteOrderMark source then byteOrderMark.length else 0

def ofSource (delivery : Delivery) (source : Bytes) : Scanner :=
  { rest := source.drop (markOf source)
    markLength := markOf source
    offset := 0
    inTag := false
    opened := []
    delivery := delivery }

end Scanner

namespace Stream

def ofSource (delivery : Delivery) (source : Bytes) : Stream :=
  (Scanner.ofSource delivery source).stream

end Stream

end ConfigDecl.Markup
