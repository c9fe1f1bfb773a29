import JsonSurvey.Text

/-! Line ends of text files. A file that is read as text shows every line end as one line feed,
whether it was written as a line feed, a carriage return or the two together. -/

namespace JsonSurvey.Text

/-- Behind the reversed text `done`, every carriage return of a text, together with a line feed
right after it, becomes a line feed; `afterReturn` tells that a carriage return came last. -/
def unifyLinesOnto (done : Text) (afterReturn : Bool) : Text → Text
  | [] => done.reverse
  | c :: rest =>
    if c = 0x0D then unifyLinesOnto (0x0A :: done) true rest
    else if afterReturn && c == 0x0A then unifyLinesOnto done false rest
    else unifyLinesOnto (c :: done) false rest

/-- The text with every line end written as one line feed. -/
def unifyLines (t : Text) : Text := unifyLinesOnto [] false t

end JsonSurvey.Text
