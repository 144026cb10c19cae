import Elocution.Text.Blank

/-!
# Punctuation

Closing quotes and brackets, the marks that end sentences, and the marks that end clauses.
-/

namespace Elocution.Text

/-- Quotes and brackets that may stand between a mark and the end of its clause. -/
def closers : List Char := ['"', '\'', ')', ']', '\x7d', '\u201d', '\u2019', '\u00bb']

def sentenceEnds : List Char := ['.', '!', '?', '\u2026']

def clauseBreaks : List Char := [',', ';', ':', '.', '!', '?', '\u2026']

def isCloser (c : Char) : Bool := closers.contains c

def isSentenceEnd (c : Char) : Bool := sentenceEnds.contains c

def isClauseBreak (c : Char) : Bool := clauseBreaks.contains c

/-- The last character of a text that is not a closing quote or bracket. -/
def lastBeforeClosers (s : List Char) : Option Char := (dropEndWhile isCloser s).getLast?

/-- A text ends a sentence when, blanks and then closers removed, a sentence mark is last. -/
def endsSentence (s : List Char) : Bool := (lastBeforeClosers (trimEnd s)).any isSentenceEnd

end Elocution.Text
